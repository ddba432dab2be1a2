import Xv6.Fs.Cache
import Xv6.Fs.Allocation
import Xv6.Fs.DoubleIndirect

/-!
# Cached files as byte arrays

Runs of `readi` and `writei` calls on inodes of the cache, against one reference array for each of
them. As long as no write goes past the blocks that the direct and the indirect addresses reach,
every file is its array and the calls do not disturb each other. The first block after these is
looked up in `addrs[NDIRECT+1]`, and that word is the `dev` field of the next entry of the cache.
-/

namespace Xv6

open Lib Prog

/-- The bytes of the file cached in slot `k`. -/
def contents (s : State) (k : Nat) : List Byte := fileBytes s k 0 (s.inode k).size

/-- `writei` admits the offset and the length, and the disk has blocks for them. -/
structure Admits (s : State) (k off n : Nat) : Prop where
  off_le : off ≤ (s.inode k).size
  max : off + n ≤ MAXFILE * BSIZE
  free : (s.inode k).size < off + n → nblk off n + indMissing s k ≤ (freeBlocks s.sector).card

/-- A write that stays within the direct blocks and the blocks of the indirect block. -/
def SmallWrite (off n : Nat) : Prop := off + n ≤ SMALLFILE * BSIZE

/-- One call in a run of calls on the inodes in the slots `S`, with a reference array for each of
them. Writes have the property `cond`. -/
inductive FileStep (cond : Nat → Nat → Prop) (S : Nat → Prop) :
    State × (Nat → List Byte) → State × (Nat → List Byte) → Prop
  | beginTrans {s s' : State} {f : Nat → List Byte} (hr : Xv6.beginTrans.run s = .ok () s') :
      FileStep cond S (s, f) (s', f)
  | commitTrans {s s' : State} {f : Nat → List Byte} (hr : Xv6.commitTrans.run s = .ok () s') :
      FileStep cond S (s, f) (s', f)
  | readi {s s' : State} {f : Nat → List Byte} {p k off n : Nat} {r : Int × List Byte} (hk : S k)
      (hoff : off ≤ (s.inode k).size) (hn : off + n < 2 ^ 32)
      (hr : (Xv6.readi p k off n).run s = .ok r s') : FileStep cond S (s, f) (s', f)
  | writei {s s' : State} {f : Nat → List Byte} {k off : Nat} {src : List Byte} {r : Int} (hk : S k)
      (ha : Admits s k off src.length) (hc : cond off src.length)
      (hr : (Xv6.writei k off src).run s = .ok r s') :
      FileStep cond S (s, f) (s', upd f k (writeBytes (f k) off src))

/-- The files in the slots `S` are the arrays `f`: `size` is the length of the array, `readi` reads
from the array, and `writei` returns the number of bytes written, changes no other entry of the
cache, and does return when it has log space for the blocks. -/
structure Independent (S : Nat → Prop) (s : State) (f : Nat → List Byte) : Prop where
  size : ∀ k, S k → (s.inode k).size = (f k).length
  read : ∀ k, S k → ∀ p off n, off ≤ (s.inode k).size → off + n < 2 ^ 32 →
    (readi p k off n).run s =
      .ok ((min n ((s.inode k).size - off) : Nat), ((f k).drop off).take n) s
  write : ∀ k, S k → ∀ off src r s', Admits s k off src.length → SmallWrite off src.length →
    (writei k off src).run s = .ok r s' → r = src.length ∧ (∀ j, j ≠ k → s'.inode j = s.inode j) ∧
      (s'.inode k).size = max (s.inode k).size (off + src.length)
  returns : ∀ k, S k → ∀ off src, Admits s k off src.length → SmallWrite off src.length →
    s.log.busy = true → s.log.lh.length + 2 * nblk off src.length + 3 ≤ LOGCAP →
    ∃ s', (writei k off src).run s = .ok src.length s'

section Step

variable {S : Nat → Prop} {s s' : State} {f : Nat → List Byte} {k i off : Nat} {src : List Byte}
  {r : Int}

lemma SameFiles.dinode_eq (hs : SameFiles s s') (hi : i < NINODES) :
    dinode s'.sector i = dinode s.sector i :=
  dinode_congr (hs.sector _ ((IBLOCK_lt hi).trans (by decide)))

lemma SameFiles.live_eq (hs : SameFiles s s') (i : Nat) : live s'.sector i = live s.sector i := by
  by_cases hi : i < NINODES
  · exact live_congr (hs.dinode_eq hi)
  · simp [live, hi]

lemma SameFiles.diskAddrs_eq (hs : SameFiles s s') : diskAddrs s'.sector = diskAddrs s.sector := by
  funext i
  unfold diskAddrs
  rw [hs.live_eq]
  split_ifs with h'
  exacts [by rw [hs.dinode_eq (live_iff.mp h').2.1], rfl]

lemma FsOk.ptr_sameFiles (h : FsOk s) (hs : SameFiles s s') (i p : Nat) :
    ptr s'.sector (diskAddrs s.sector i) p = ptr s.sector (diskAddrs s.sector i) p := by
  refine ptr_congr (fun _ _ => rfl) fun hi => hs.sector _ ?_
  have := h.ptrs.valid (i, NDIRECT) (by rwa [Xv6.ptrs, ptr_direct le_rfl])
  rw [Xv6.ptrs, ptr_direct le_rfl] at this
  exact this.2.1

/-- A state with the tables and the files of a consistent one. -/
lemma FsOk.sameFiles (h : FsOk s) (hv : Volume s') (hs : SameFiles s s') :
    FsOk s' ∧ node s'.sector = node s.sector := by
  have hd : ∀ i < NINODES, dinode s'.sector i = dinode s.sector i := fun i hi => hs.dinode_eq hi
  have hl : ∀ i, live s'.sector i = live s.sector i := hs.live_eq
  have hdata : ∀ c, Data s.sector c → Data s'.sector c := fun c hc =>
    ⟨hc.1, hc.2.1, (hs.used_eq hc.lt_size).trans hc.2.2⟩
  have hptr := h.ptr_sameFiles hs
  refine ⟨⟨hv, ?_, fun i hi => ?_, fun i hi o ho => ?_, ?_, ?_, fun k i hc => ?_, ?_⟩, ?_⟩
  · rw [hs.diskAddrs_eq]
    exact (h.ptrs.congr fun x => hptr x.1 x.2).mono hdata
  · rw [hl] at hi
    rw [hd i (live_iff.mp hi).2.1]
    exact h.size i hi
  · rw [hl] at hi
    rw [hd i (live_iff.mp hi).2.1] at ho ⊢
    have := h.mapped i hi o ho
    unfold HasBlock at this ⊢
    rw [← diskAddrs_of_live hi] at this ⊢
    rwa [hptr]
  · rw [hs.inode]
    exact h.dev
  · rw [hs.inode]
    exact h.inum
  · obtain ⟨h1, h2, h3, h4⟩ := hc
    rw [hs.inode] at h2 h3 h4 ⊢
    obtain ⟨hi, he⟩ := h.synced k i ⟨h1, h2, h3, h4⟩
    exact ⟨(hl i).trans hi, he.trans (hd i (live_iff.mp hi).2.1).symm⟩
  · rw [hs.inode]
    exact h.uniq
  · funext i
    cases hi : live s.sector i with
    | false => rw [node_of_free hi, node_of_free ((hl i).trans hi)]
    | true =>
      refine node_congr (hd i (live_iff.mp hi).2.1) fun _ o ho => ?_
      have hb := h.mapped i hi o ho
      unfold HasBlock at hb
      rw [← diskAddrs_of_live hi] at hb ⊢
      exact byteAt_congr (hptr i _) (hs.sector _ (h.ptrs.valid (i, _) hb).2.1)

lemma FsOk.contents_eq (h : FsOk s) (hc : Caches s k i) :
    contents s k = (node s.sector i).data := by
  have hlen := h.length_data hc
  unfold contents
  rw [← hlen, fileBytes_eq_take (fun o ho => h.fileByte_eq hc (hlen ▸ ho)) (Nat.zero_add _).le,
    List.drop_zero, List.take_length]

/-- What a write that returns has done. -/
lemma FsOk.writei_ok (h : FsOk s) (hc : Caches s k i) (ht : (s.inode k).type ≠ T_DEV)
    (ha : Admits s k off src.length) (hs : SmallWrite off src.length)
    (hr : (writei k off src).run s = .ok r s') :
    r = src.length ∧ WroteFile s k i off src s' := by
  have hw := wp_ok (wp_writei (Q := fun r s' => r = src.length ∧ WroteFile s k i off src s')
    (E := fun _ _ => True) h hc ht ha.off_le hs ha.free (.inr fun _ _ => trivial)
    fun _ hw => ⟨rfl, hw⟩) hr
  exact hw

lemma indCost_le (s : State) (k : Nat) : indCost s k ≤ 2 := by
  unfold indCost
  split_ifs <;> omega

/-- A write with log space for its blocks returns. -/
lemma FsOk.writei_returns (h : FsOk s) (hc : Caches s k i) (ht : (s.inode k).type ≠ T_DEV)
    (ha : Admits s k off src.length) (hs : SmallWrite off src.length) (hb : s.log.busy = true)
    (hroom : s.log.lh.length + 2 * nblk off src.length + 3 ≤ LOGCAP) :
    ∃ s', (writei k off src).run s = .ok src.length s' ∧ WroteFile s k i off src s' := by
  have hcost := indCost_le s k
  obtain ⟨r, s', hr, rfl, hw⟩ := wp_total (wp_writei
    (Q := fun r s' => r = src.length ∧ WroteFile s k i off src s') (E := fun _ _ => False) h hc ht
    ha.off_le hs ha.free (.inl ⟨hb, by omega⟩) fun _ hw => ⟨rfl, hw⟩)
  exact ⟨s', hr, hw⟩

/-- `readi` from an array, for the offsets and lengths in range. -/
lemma arrayRead_eq {data : List Byte} {off n : Nat} (hoff : off ≤ data.length)
    (hn : off + n < 2 ^ 32) :
    arrayRead data off n =
      (((min n (data.length - off) : Nat) : Int), (data.drop off).take n) := by
  unfold arrayRead readiLen
  rw [Nat.mod_eq_of_lt hn, if_neg (by omega)]
  split_ifs with h
  · rw [min_eq_right (by omega)]
    simp only [Prod.mk.injEq, true_and]
    rw [List.take_of_length_le (by simp), List.take_of_length_le (by simp; omega)]
  · rw [min_eq_left (by omega)]

/-- What a run keeps: the slots stay cached for the same inodes, whose files are the arrays. -/
structure Held (S : Nat → Prop) (s0 s : State) (f : Nat → List Byte) : Prop where
  ok : FsOk s
  caches : ∀ k, S k → Caches s k (s0.inode k).inum
  type : ∀ k, S k → (s.inode k).type ≠ T_DEV
  data : ∀ k, S k → (node s.sector (s0.inode k).inum).data = f k

variable {s0 : State}

lemma Held.sameFiles (h : Held S s0 s f) (hv : Volume s') (hs : SameFiles s s') :
    Held S s0 s' f := by
  obtain ⟨hok, hnode⟩ := h.ok.sameFiles hv hs
  refine ⟨hok, fun k hk => ?_, fun k hk => ?_, fun k hk => ?_⟩
  · have hc := h.caches k hk
    exact ⟨hc.lt, hs.inode ▸ hc.ref, hs.inode ▸ hc.inum, hs.inode ▸ hc.valid⟩
  · rw [hs.inode]
    exact h.type k hk
  · rw [hnode]
    exact h.data k hk

lemma Held.read (h : Held S s0 s f) (hk : S k) {p n : Nat} (hoff : off ≤ (s.inode k).size)
    (hn : off + n < 2 ^ 32) : (readi p k off n).run s =
      .ok ((min n ((s.inode k).size - off) : Nat), ((f k).drop off).take n) s := by
  have hc := h.caches k hk
  have hlen := h.ok.length_data hc
  rw [h.ok.run_readi hc (h.type k hk) (by omega) (by omega), h.data k hk,
    arrayRead_eq (by rw [← h.data k hk, hlen]; exact hoff) hn, ← h.data k hk, hlen]

/-- Two slots of the run hold different inodes. -/
lemma Held.inum_ne (h : Held S s0 s f) {j : Nat} (hk : S k) (hj : S j) (hne : j ≠ k) :
    (s0.inode j).inum ≠ (s0.inode k).inum := fun he =>
  hne (h.ok.uniq j k (h.caches j hj).lt (h.caches k hk).lt (h.caches j hj).ref (h.caches k hk).ref
    ((h.caches j hj).inum.trans (he.trans (h.caches k hk).inum.symm)))

lemma Held.wrote (h : Held S s0 s f) (hk : S k)
    (hw : WroteFile s k (s0.inode k).inum off src s') :
    Held S s0 s' (upd f k (writeBytes (f k) off src)) := by
  have hslot : (s'.inode k) = { s.inode k with
      size := max (s.inode k).size (off + src.length), addrs := (s'.inode k).addrs } := by
    conv_lhs => rw [hw.inode]
    exact upd_same ..
  have hother : ∀ j, j ≠ k → s'.inode j = s.inode j := fun j hj => by
    rw [hw.inode]
    exact upd_ne hj
  refine ⟨hw.ok, fun j hj => ?_, fun j hj => ?_, fun j hj => ?_⟩
  · have hc := h.caches j hj
    by_cases hjk : j = k
    · subst hjk
      exact ⟨hc.lt, by rw [hslot]; exact hc.ref, by rw [hslot]; exact hc.inum,
        by rw [hslot]; exact hc.valid⟩
    · exact ⟨hc.lt, hother j hjk ▸ hc.ref, hother j hjk ▸ hc.inum, hother j hjk ▸ hc.valid⟩
  · by_cases hjk : j = k
    · subst hjk
      rw [hslot]
      exact h.type j hj
    · rw [hother j hjk]
      exact h.type j hj
  · rw [hw.node_eq]
    by_cases hjk : j = k
    · subst hjk
      rw [upd_same, upd_same, h.data j hj]
    · rw [upd_ne (h.inum_ne hk hj hjk), upd_ne hjk, h.data j hj]

/-- One step of a run. -/
lemma Held.step (h : Held S s0 s f) {f' : Nat → List Byte}
    (hs : FileStep SmallWrite S (s, f) (s', f')) : Held S s0 s' f' := by
  cases hs with
  | beginTrans hr =>
    obtain ⟨hv, hsame, -⟩ := beginTrans_ok h.ok.volume hr
    exact h.sameFiles hv hsame
  | commitTrans hr =>
    obtain ⟨s1, hr1, hv, hsame, -⟩ := commitTrans_ok h.ok.volume
    obtain ⟨-, rfl⟩ := Res.ok.inj (hr1.symm.trans hr)
    exact h.sameFiles hv hsame
  | readi hk hoff hn hr =>
    obtain ⟨-, rfl⟩ := Res.ok.inj ((h.read hk hoff hn).symm.trans hr)
    exact h
  | writei hk ha hc hr =>
    exact h.wrote hk (h.ok.writei_ok (h.caches _ hk) (h.type _ hk) ha hc hr).2

lemma Held.run (h : Held S s0 s f) {t : State × (Nat → List Byte)}
    (hrun : Relation.ReflTransGen (FileStep SmallWrite S) (s, f) t) : Held S s0 t.1 t.2 := by
  induction hrun with
  | refl => exact h
  | tail _ hs ih => exact ih.step hs

/-- The slots of a set of cached files that are no devices. -/
lemma FsOk.held (h : FsOk s) (hS : ∀ k, S k → ∃ i, Caches s k i)
    (ht : ∀ k, S k → (s.inode k).type ≠ T_DEV) : Held S s s (contents s) := by
  have hc : ∀ k, S k → Caches s k (s.inode k).inum := fun k hk => by
    obtain ⟨i, hi⟩ := hS k hk
    exact hi.inum ▸ hi
  exact ⟨h, hc, ht, fun k hk => (h.contents_eq (hc k hk)).symm⟩

lemma Held.independent (h : Held S s0 s f) : Independent S s f := by
  refine ⟨fun k hk => ?_, fun k hk p off n => h.read hk, fun k hk off src r s' ha hs hr => ?_,
    fun k hk off src ha hs hb hroom => ?_⟩
  · rw [← h.data k hk, h.ok.length_data (h.caches k hk)]
  · obtain ⟨hret, hw⟩ := h.ok.writei_ok (h.caches k hk) (h.type k hk) ha hs hr
    refine ⟨hret, fun j hj => ?_, ?_⟩
    · rw [hw.inode]
      exact upd_ne hj
    · rw [hw.inode, upd_same]
  · obtain ⟨s', hr, -⟩ := h.ok.writei_returns (h.caches k hk) (h.type k hk) ha hs hb hroom
    exact ⟨s', hr⟩

end Step

/-- In every run of `readi` and `writei` calls on cached files whose writes stay within the direct
and the indirect blocks, the files are independent byte arrays in every state reached. -/
theorem cached_files_independent {S : Nat → Prop} {s0 s : State} {f : Nat → List Byte}
    (h0 : FsOk s0) (hS : ∀ k, S k → ∃ i, Caches s0 k i)
    (ht : ∀ k, S k → (s0.inode k).type ≠ T_DEV)
    (h : Relation.ReflTransGen (FileStep SmallWrite S) (s0, contents s0) (s, f)) :
    Independent S s f :=
  ((h0.held hS ht).run h).independent

/-! ### A file that fills its indirect block -/

/-- `s` is `s0` after the file in slot `k`, empty in `s0`, has got `m` blocks. -/
structure Grown (s0 : State) (k m : Nat) (s : State) : Prop where
  ok : FsOk s
  inode : s.inode = upd s0.inode k
    { s0.inode k with size := m * BSIZE, addrs := (s.inode k).addrs }
  busy : s.log.busy = false
  lh : s.log.lh = []
  card : (freeBlocks s0.sector).card ≤ (freeBlocks s.sector).card + 2 * m

section Grow

variable {cond : Nat → Nat → Prop} {s0 s : State} {f : Nat → List Byte} {i k m : Nat}

lemma Grown.slot (h : Grown s0 k m s) : s.inode k =
    { s0.inode k with size := m * BSIZE, addrs := (s.inode k).addrs } := by
  conv_lhs => rw [h.inode]
  exact upd_same ..

lemma Grown.caches (h : Grown s0 k m s) (hc : Caches s0 k i) : Caches s k i :=
  ⟨hc.lt, by rw [h.slot]; exact hc.ref, by rw [h.slot]; exact hc.inum,
    by rw [h.slot]; exact hc.valid⟩

/-- A transaction that appends one block. -/
lemma Grown.append (h : Grown s0 k m s) (hc : Caches s0 k i) (ht : (s0.inode k).type ≠ T_DEV)
    (hm : m < SMALLFILE) (hfree : 2 * SMALLFILE ≤ (freeBlocks s0.sector).card)
    (hcond : ∀ off n, SmallWrite off n → cond off n) :
    ∃ s' f', Relation.ReflTransGen (FileStep cond (· = k)) (s, f) (s', f') ∧
      Grown s0 k (m + 1) s' := by
  have hr1 := run_beginTrans h.busy
  obtain ⟨hv1, hsame1, hb1, hlh1, -⟩ := beginTrans_ok h.ok.volume hr1
  set s1 : State := { s with log := { s.log with busy := true } } with hs1
  obtain ⟨hok1, -⟩ := h.ok.sameFiles hv1 hsame1
  have hslot : s1.inode k =
      { s0.inode k with size := m * BSIZE, addrs := (s.inode k).addrs } := h.slot
  have hc0 := h.caches hc
  have hc1 : Caches s1 k i := ⟨hc0.lt, hc0.ref, hc0.inum, hc0.valid⟩
  have ht1 : (s1.inode k).type ≠ T_DEV := by
    rw [hslot]
    exact ht
  have hsize : (s1.inode k).size = m * BSIZE := by rw [hslot]
  obtain ⟨src, hsrc⟩ : ∃ src : List Byte, src.length = BSIZE :=
    ⟨List.replicate BSIZE 0, List.length_replicate ..⟩
  have hnblk : nblk (m * BSIZE) src.length = 1 := by
    rw [hsrc]
    simp [nblk]
  have hsmall : SmallWrite (m * BSIZE) src.length := by
    unfold SmallWrite
    rw [hsrc]
    simp only [SMALLFILE, NDIRECT, NINDIRECT, BSIZE] at *
    omega
  have hmiss : indMissing s1 k ≤ 1 := by
    unfold indMissing
    split_ifs <;> omega
  have hadm : Admits s1 k (m * BSIZE) src.length := by
    refine ⟨hsize.ge, hsmall.trans (by decide), fun _ => ?_⟩
    have := h.card
    change _ ≤ (freeBlocks s.sector).card
    omega
  obtain ⟨s2, hr2, hw⟩ := hok1.writei_returns hc1 ht1 hadm hsmall hb1 (by
    rw [hlh1, h.lh, hnblk]
    decide)
  obtain ⟨s3, hr3, hv3, hsame3, hb3, hlh3⟩ := commitTrans_ok hw.ok.volume
  refine ⟨s3, _, .tail (.tail (.tail .refl (.beginTrans hr1))
    (.writei rfl hadm (hcond _ _ hsmall) hr2)) (.commitTrans hr3),
    (hw.ok.sameFiles hv3 hsame3).1, ?_, hb3, hlh3, ?_⟩
  · rw [hsame3.inode]
    have hmax : max (m * BSIZE) (m * BSIZE + src.length) = (m + 1) * BSIZE := by
      rw [hsrc, max_eq_right (Nat.le_add_right ..), Nat.succ_mul]
    conv_lhs => rw [hw.inode, hslot]
    change upd s.inode k _ = _
    conv_lhs => rw [h.inode, upd_upd]
    simp only [hmax]
  · have h1 := hw.free
    have h2 := h.card
    change (freeBlocks s.sector).card ≤ _ at h1
    rw [freeBlocks_congr fun c hc => hsame3.used_eq hc]
    omega

/-- Appends fill the file up to its last indirect block. -/
lemma Grown.fill (cond : Nat → Nat → Prop) (h : Grown s0 k 0 s0) (hc : Caches s0 k i)
    (ht : (s0.inode k).type ≠ T_DEV) (hfree : 2 * SMALLFILE ≤ (freeBlocks s0.sector).card)
    (hcond : ∀ off n, SmallWrite off n → cond off n) (hm : m ≤ SMALLFILE) :
    ∃ s f', Relation.ReflTransGen (FileStep cond (· = k)) (s0, f) (s, f') ∧ Grown s0 k m s := by
  induction m with
  | zero => exact ⟨s0, f, .refl, h⟩
  | succ m ih =>
    obtain ⟨s1, f1, hrun, h1⟩ := ih (by omega)
    obtain ⟨s2, f2, hrun', h2⟩ := h1.append (f := f1) hc ht (by omega) hfree hcond
    exact ⟨s2, f2, hrun.trans hrun', h2⟩

end Grow

/-! ### The write that goes through the next entry of the cache -/

/-- Two empty host files, `a` and `b`. -/
def emptyFiles : List Mkfs.HostFile := [⟨[97], []⟩, ⟨[98], []⟩]

/-- `s0` is the state after boot on the image `img` of `emptyFiles`, when the file `a` has been
opened: inode 2, locked in slot 1. -/
structure Opened (img : Mkfs.Image) (s0 : State) : Prop where
  image : Mkfs.main emptyFiles = some img
  opened : ∃ s1, (iget ROOTDEV 2).run (boot img.sect) = .ok 1 s1 ∧ (ilock 1).run s1 = .ok () s0
  grown : Grown s0 1 0 s0
  caches : Caches s0 1 2
  type : (s0.inode 1).type = T_FILE
  nlink : (s0.inode 1).nlink = 1
  ref : (s0.inode 1).ref = 1
  other : ∀ j, j ≠ 1 → s0.inode j = (boot img.sect).inode j
  card : 1000 ≤ (freeBlocks s0.sector).card

/-- Such a state is reached. -/
lemma exists_opened : ∃ img s0, Opened img s0 := by
  obtain ⟨img, himg⟩ : ∃ img, Mkfs.main emptyFiles = some img :=
    Option.isSome_iff_exists.mp (by decide +kernel)
  obtain ⟨hok, hnodes⟩ := Mkfs.fsOk_boot himg (by decide) (by decide)
  have hnode : node img.sect 2 = ⟨T_FILE, 0, 0, 1, []⟩ := by rw [hnodes]; rfl
  have hlive : live img.sect 2 = true := by
    cases hl : live img.sect 2 with
    | true => rfl
    | false =>
      rw [node_of_free hl] at hnode
      exact absurd (congrArg Node.type hnode) (by decide)
  have hget : (iget ROOTDEV 2).run (boot img.sect) =
      .ok 1 ((boot img.sect).setInode 1 fun ip => ip.recycle ROOTDEV 2) := rfl
  set s1 := (boot img.sect).setInode 1 fun ip => ip.recycle ROOTDEV 2 with hs1
  have hslot : s1.inode 1 = { dev := ROOTDEV, inum := 2, ref := 1 } := rfl
  have hok1 : FsOk s1 := hok.recycle (by decide) (by decide) fun j _ hr _ => by
    by_cases hj : j = 0
    · subst hj
      exact (by decide : ROOTINO ≠ 2)
    · rw [boot_inode_ne hj] at hr
      exact absurd hr (by decide)
  have href : 0 < (s1.inode 1).ref := by rw [hslot]; decide
  have hlock := hok1.run_ilock (k := 1) (by decide) href rfl fun _ => hlive
  obtain ⟨hok0, hc0⟩ := hok1.lock (k := 1) (by decide) href fun _ => hlive
  set s0 := s1.setInode 1 fun ip => ip.locked s1.sector with hs0
  have hn := hok0.node_eq hc0
  have hsize := hok0.length_data hc0
  change node img.sect 2 = _ at hn
  change (node img.sect 2).data.length = _ at hsize
  rw [hnode] at hn hsize
  obtain ⟨htype, -, -, hnlink, -⟩ := Node.mk.inj hn
  refine ⟨img, s0, himg, ⟨s1, hget, hlock⟩, ⟨hok0, ?_, rfl, rfl, Nat.le_add_right ..⟩, hc0,
    htype.symm, hnlink.symm, ?_, fun j hj => ?_, ?_⟩
  · have hempty : ∀ ip : Inode, ip.size = 0 → ip = { ip with size := 0 * BSIZE } :=
      fun ip h => by
        rw [Nat.zero_mul, ← h]
    exact (upd_eq_self _ _).symm.trans (congrArg (upd s0.inode 1) (hempty _ hsize.symm))
  · rw [hs0, State.setInode_inode_same, locked_ref, hslot]
  · rw [hs0, State.setInode_inode_ne _ _ hj, hs1, State.setInode_inode_ne _ _ hj]
  · have hcard := (packed_boot himg (by decide)).card
    have hlt := mkfs_freeblock_le himg
    change 1000 ≤ (freeBlocks (boot img.sect).sector).card
    rw [hcard]
    simp only [LOGSTART]
    omega

/-- The file has all the blocks that its direct and indirect addresses reach, and then one byte more
is written in a transaction. -/
lemma Opened.double {img : Mkfs.Image} {s0 : State} (ho : Opened img s0) : ∃ s f s' c b,
    Relation.ReflTransGen (FileStep (fun _ _ => True) (· = 1)) (s0, contents s0) (s, f) ∧
    Admits s 1 (SMALLFILE * BSIZE) 1 ∧ 600 ≤ (freeBlocks s.sector).card ∧
    (writei 1 (SMALLFILE * BSIZE) [0]).run s = .ok 1 s' ∧ WroteDouble s 1 2 c b s' ∧
    s.inode = upd s0.inode 1
      { s0.inode 1 with size := SMALLFILE * BSIZE, addrs := (s.inode 1).addrs } := by
  have ht : (s0.inode 1).type ≠ T_DEV := by rw [ho.type]; decide
  have hcard0 := ho.card
  obtain ⟨s, f, hrun, hg⟩ := ho.grown.fill (fun _ _ => True) (f := contents s0) ho.caches ht
    (le_trans (by decide) hcard0) (fun _ _ _ => trivial) le_rfl
  have hr1 := run_beginTrans hg.busy
  obtain ⟨hv1, hsame1, hb1, hlh1, -⟩ := beginTrans_ok hg.ok.volume hr1
  set s1 : State := { s with log := { s.log with busy := true } } with hs1
  obtain ⟨hok1, -⟩ := hg.ok.sameFiles hv1 hsame1
  have hslot : s1.inode 1 =
      { s0.inode 1 with size := SMALLFILE * BSIZE, addrs := (s.inode 1).addrs } := hg.slot
  have hc := hg.caches ho.caches
  have hc1 : Caches s1 1 2 := ⟨hc.lt, hc.ref, hc.inum, hc.valid⟩
  have hsize : (s1.inode 1).size = SMALLFILE * BSIZE := by rw [hslot]
  have hnext : (s1.inode 2).dev = 0 := by
    change (s.inode 2).dev = 0
    rw [hg.inode, upd_ne (by decide), ho.other 2 (by decide), boot_inode_ne (by decide)]
  have hfree : 600 ≤ (freeBlocks s1.sector).card := by
    have h1 := hg.card
    have h2 : SMALLFILE = 139 := rfl
    change 600 ≤ (freeBlocks s.sector).card
    omega
  have hadm : Admits s1 1 (SMALLFILE * BSIZE) 1 := by
    have hmiss : indMissing s1 1 ≤ 1 := by
      unfold indMissing
      split_ifs <;> omega
    have hblk : nblk (SMALLFILE * BSIZE) 1 = 1 := by decide
    exact ⟨hsize.ge, by decide, fun _ => by omega⟩
  have ht1 : (s1.inode 1).type ≠ T_DEV := by
    rw [hslot]
    exact ht
  obtain ⟨r, s', hr, rfl, c, b, hw⟩ := wp_total (wp_writei_double (x := 0)
    (Q := fun r s' => r = 1 ∧ ∃ c b, WroteDouble s1 1 2 c b s') (E := fun _ _ => False) hok1 hc1 ht1
    hsize hnext (by omega) ⟨hb1, by rw [hlh1, hg.lh]; decide⟩ fun c b s' hw => ⟨rfl, c, b, hw⟩)
  exact ⟨s1, f, s', c, b, .tail hrun (.beginTrans hr1), hadm, hfree, hr, hw, hg.inode⟩

/-- A one-byte write that `writei` admits, with free blocks and log space enough, to a file whose
direct and indirect blocks are full. It changes the `dev` field of the next entry of the cache. -/
theorem write_changes_next_inode : ∃ img s0 s f s', Opened img s0 ∧
    Relation.ReflTransGen (FileStep (fun _ _ => True) (· = 1)) (s0, contents s0) (s, f) ∧
    Admits s 1 (SMALLFILE * BSIZE) 1 ∧ 3 ≤ (freeBlocks s.sector).card ∧
    (writei 1 (SMALLFILE * BSIZE) [0]).run s = .ok 1 s' ∧
    (s.inode 2).dev = 0 ∧ (s'.inode 2).dev ≠ 0 := by
  obtain ⟨img, s0, ho⟩ := exists_opened
  obtain ⟨s, f, s', c, b, hrun, hadm, hfree, hr, hw, hinode⟩ := ho.double
  obtain ⟨d, hp⟩ := hw.path
  refine ⟨img, s0, s, f, s', ho, hrun, hadm, by omega, hr, ?_, ?_⟩
  · rw [hinode, upd_ne (by decide), ho.other 2 (by decide), boot_inode_ne (by decide)]
  · rw [hp.dev]
    exact hp.first.ne_zero

/-- A run that appends one block to an empty file. -/
theorem cached_files_independent_append : ∃ img s0 s f, Opened img s0 ∧
    Relation.ReflTransGen (FileStep SmallWrite (· = 1)) (s0, contents s0) (s, f) ∧
    (s.inode 1).size = BSIZE ∧ Independent (· = 1) s f := by
  obtain ⟨img, s0, ho⟩ := exists_opened
  have ht : (s0.inode 1).type ≠ T_DEV := by rw [ho.type]; decide
  have hcard := ho.card
  obtain ⟨s, f, hrun, hg⟩ := ho.grown.fill SmallWrite (f := contents s0) (m := 1)
    ho.caches ht (le_trans (by decide) hcard) (fun _ _ h => h) (by decide)
  have hS : ∀ k, k = 1 → ∃ i, Caches s0 k i := by
    rintro k rfl
    exact ⟨2, ho.caches⟩
  have hT : ∀ k, k = 1 → (s0.inode k).type ≠ T_DEV := by
    rintro k rfl
    exact ht
  refine ⟨img, s0, s, f, ho, hrun, ?_, cached_files_independent ho.grown.ok hS hT hrun⟩
  rw [hg.slot]
  exact Nat.one_mul _

end Xv6
