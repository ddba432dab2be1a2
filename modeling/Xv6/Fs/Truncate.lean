import Xv6.Fs.Allocation
import Xv6.Fs.DiskInode

/-!
# `itrunc`

The tree of blocks that `bmap` reaches from a cached inode has three levels: the addresses of the
inode, the entries of its indirect block, and the blocks below `addrs[NDIRECT+1]`. `itrunc` frees
the first two and does not look at the third. `Released` is what truncation is for; `itrunc`
achieves it for the inodes without a doubly indirect block, as long as the log has room for the
bitmap blocks that it writes.
-/

namespace Xv6

open Lib Prog List

/-! ### The block tree -/

/-- A place in the tree of an inode that may hold a block. -/
inductive Place
  /-- `addrs[p]` -/
  | addr (p : Nat)
  /-- entry `j` of the indirect block -/
  | single (j : Nat)
  /-- entry `j` of the doubly indirect block -/
  | middle (j : Nat)
  /-- entry `l` of the block at entry `j` of the doubly indirect block -/
  | double (j l : Nat)
  deriving DecidableEq

/-- Entry `j` of pointer block `b`, zero if there is no such block. -/
def entryOf (sect : Nat → Bytes) (b j : Nat) : Nat :=
  if b ≠ 0 ∧ j < NINDIRECT then (sect b).le (4 * j) 4 else 0

/-- The block at a place of the tree of the inode in slot `k`, where `bmap` looks for it. -/
def blockAt (s : State) (k : Nat) : Place → Nat
  | .addr p => if p ≤ NDIRECT + 1 then addrsGet s.inode k p else 0
  | .single j => entryOf s.sector (addrsGet s.inode k NDIRECT) j
  | .middle j => entryOf s.sector (addrsGet s.inode k (NDIRECT + 1)) j
  | .double j l => entryOf s.sector (entryOf s.sector (addrsGet s.inode k (NDIRECT + 1)) j) l

/-- Block `b` belongs to the inode in slot `k`. -/
def InTree (s : State) (k b : Nat) : Prop := b ≠ 0 ∧ ∃ x, blockAt s k x = b

/-- The blocks of the inode in slot `k` are free in `s'`, no other bit of the bitmap has changed,
and in the cache and on the disk the inode is empty. -/
structure Released (s : State) (k : Nat) (s' : State) : Prop where
  bits : ∀ b < FSSIZE, used s'.sector b = true ↔ used s.sector b = true ∧ ¬ InTree s k b
  size : (s'.inode k).size = 0
  addrs : ∀ p ≤ NDIRECT + 1, addrsGet s'.inode k p = 0
  diskSize : (dinode s'.sector (s.inode k).inum).size = 0
  diskAddrs : ∀ p, (dinode s'.sector (s.inode k).inum).addrs p = 0

/-- The blocks among `f i`, …, `f (i + n - 1)`. -/
def blocksOf (f : Nat → Nat) (i n : Nat) : List Nat := ((List.range' i n).map f).filter (· ≠ 0)

/-- The blocks `itrunc` frees, in its order. -/
def truncated (s : State) (k : Nat) : List Nat :=
  blocksOf (addrsGet s.inode k) 0 NDIRECT ++
    (blocksOf (entryOf s.sector (addrsGet s.inode k NDIRECT)) 0 NINDIRECT ++
      blocksOf (addrsGet s.inode k) NDIRECT 1)

/-- The log holds the bitmap blocks of the blocks `itrunc` frees, and has room for one more. -/
def TruncFits (s : State) (k : Nat) : Prop :=
  s.log.busy = true ∧
    (s.log.lh ++ (truncated s k).map (BBLOCK · NINODES)).toFinset.card < LOGCAP

section Lists

variable {f : Nat → Nat} {i n b j : Nat} {sect : Nat → Bytes}

@[simp] lemma blocksOf_zero : blocksOf f i 0 = [] := rfl

lemma blocksOf_succ : blocksOf f i (n + 1) =
    if f i = 0 then blocksOf f (i + 1) n else f i :: blocksOf f (i + 1) n := by
  unfold blocksOf
  rw [List.range'_succ, map_cons, filter_cons]
  split_ifs <;> simp_all

lemma mem_blocksOf : b ∈ blocksOf f i n ↔ b ≠ 0 ∧ ∃ p, (i ≤ p ∧ p < i + n) ∧ f p = b := by
  simp only [blocksOf, mem_filter, mem_map, mem_range'_1, decide_eq_true_eq]
  exact and_comm

lemma blocksOf_congr {g : Nat → Nat} (h : ∀ p, i ≤ p → p < i + n → g p = f p) :
    blocksOf g i n = blocksOf f i n := by
  unfold blocksOf
  congr 1
  refine map_congr_left fun p hp => ?_
  rw [mem_range'_1] at hp
  exact h p hp.1 hp.2

@[simp] lemma entryOf_zero : entryOf sect 0 j = 0 := by simp [entryOf]

lemma entryOf_of_ne (hb : b ≠ 0) (hj : j < NINDIRECT) : entryOf sect b j = (sect b).le (4 * j) 4 :=
  if_pos ⟨hb, hj⟩

/-- Distinct places hold distinct blocks. -/
lemma nodup_blocksOf (h : ∀ p q, f p ≠ 0 → f p = f q → p = q) : (blocksOf f i n).Nodup := by
  induction n generalizing i with
  | zero => simp
  | succ n ih =>
    rw [blocksOf_succ]
    split_ifs with h0
    · exact ih
    · refine nodup_cons.mpr ⟨fun hm => ?_, ih⟩
      obtain ⟨-, p, hp, heq⟩ := mem_blocksOf.mp hm
      have := h i p h0 heq.symm
      omega

end Lists

section Tree

variable {s s' : State} {k b : Nat}

lemma mem_truncated : b ∈ truncated s k ↔ b ≠ 0 ∧
    ((∃ p ≤ NDIRECT, blockAt s k (.addr p) = b) ∨ ∃ j, blockAt s k (.single j) = b) := by
  simp only [truncated, mem_append, mem_blocksOf, blockAt]
  constructor
  · rintro (⟨h0, p, hp, rfl⟩ | ⟨h0, j, hj, rfl⟩ | ⟨h0, p, hp, rfl⟩)
    · exact ⟨h0, .inl ⟨p, by omega, if_pos (by omega)⟩⟩
    · exact ⟨h0, .inr ⟨j, rfl⟩⟩
    · exact ⟨h0, .inl ⟨p, by omega, if_pos (by omega)⟩⟩
  · rintro ⟨h0, ⟨p, hp, rfl⟩ | ⟨j, rfl⟩⟩
    · rw [if_pos (by omega)] at h0 ⊢
      rcases Nat.lt_or_ge p NDIRECT with hlt | hge
      · exact .inl ⟨h0, p, by omega, rfl⟩
      · exact .inr (.inr ⟨h0, p, by omega, rfl⟩)
    · refine .inr (.inl ⟨h0, j, ⟨Nat.zero_le _, ?_⟩, rfl⟩)
      by_contra hj
      exact h0 (if_neg fun h => hj (by omega))

lemma truncated_sub (hb : b ∈ truncated s k) : InTree s k b := by
  obtain ⟨h0, ⟨p, -, h⟩ | ⟨j, h⟩⟩ := mem_truncated.mp hb
  exacts [⟨h0, _, h⟩, ⟨h0, _, h⟩]

/-- Without a doubly indirect block, `itrunc` frees the whole tree. -/
lemma mem_truncated_iff (hD : addrsGet s.inode k (NDIRECT + 1) = 0) :
    b ∈ truncated s k ↔ InTree s k b := by
  refine ⟨truncated_sub, fun ⟨h0, x, hx⟩ => mem_truncated.mpr ⟨h0, ?_⟩⟩
  cases x with
  | addr p =>
    refine .inl ⟨p, Nat.le_of_not_lt fun hp => h0 ?_, hx⟩
    rw [← hx, blockAt]
    split_ifs with hle
    · rw [show p = NDIRECT + 1 by omega, hD]
    · rfl
  | single j => exact .inr ⟨j, hx⟩
  | middle j =>
    rw [blockAt, hD, entryOf_zero] at hx
    exact absurd hx.symm h0
  | double j l =>
    rw [blockAt, hD, entryOf_zero, entryOf_zero] at hx
    exact absurd hx.symm h0

variable (h : Pointers (blockAt s k) (Data s.sector))

include h

lemma data_truncated (hb : b ∈ truncated s k) : Data s.sector b := by
  obtain ⟨h0, x, rfl⟩ := truncated_sub hb
  exact h.valid x h0

lemma nodup_truncated : (truncated s k).Nodup := by
  have haddr : ∀ i n, (i + n ≤ NDIRECT + 2) → (blocksOf (addrsGet s.inode k) i n).Nodup := by
    intro i n hn
    have heq : blocksOf (addrsGet s.inode k) i n =
        blocksOf (fun p => blockAt s k (.addr p)) i n := by
      refine (blocksOf_congr fun p _ hp => ?_).symm
      exact if_pos (by omega)
    rw [heq]
    exact nodup_blocksOf fun p q hp hpq => Place.addr.inj (h.inj _ _ hp hpq)
  refine nodup_append.mpr ⟨haddr _ _ (by omega), nodup_append.mpr ⟨?_, haddr _ _ (by omega),
    ?_⟩, ?_⟩
  · exact nodup_blocksOf fun p q hp hpq => Place.single.inj (h.inj (.single p) (.single q) hp hpq)
  · intro b hb c hc hbc
    obtain ⟨hb0, j, -, hj⟩ := mem_blocksOf.mp hb
    obtain ⟨-, p, hp, hpc⟩ := mem_blocksOf.mp hc
    have hjb : blockAt s k (.single j) = b := hj
    have := h.inj (.single j) (.addr p) (hjb ▸ hb0) (by
      rw [hjb, blockAt, if_pos (by omega), hpc, hbc])
    cases this
  · intro b hb c hc hbc
    obtain ⟨hb0, p, hp, hpb⟩ := mem_blocksOf.mp hb
    have hpa : blockAt s k (.addr p) = b := by rw [blockAt, if_pos (by omega), hpb]
    rcases mem_append.mp hc with hc | hc
    · obtain ⟨-, j, -, hj⟩ := mem_blocksOf.mp hc
      have := h.inj (.addr p) (.single j) (hpa ▸ hb0) (by rw [hpa, hbc, blockAt, hj])
      cases this
    · obtain ⟨-, q, hq, hqc⟩ := mem_blocksOf.mp hc
      have := h.inj (.addr p) (.addr q) (hpa ▸ hb0) (by
        rw [hpa, hbc, blockAt, if_pos (by omega), hqc])
      obtain rfl := Place.addr.inj this
      omega

/-- The doubly indirect block is not among the blocks `itrunc` frees. -/
lemma doubly_not_truncated (hD : addrsGet s.inode k (NDIRECT + 1) ≠ 0) :
    addrsGet s.inode k (NDIRECT + 1) ∉ truncated s k := by
  have hat : blockAt s k (.addr (NDIRECT + 1)) = addrsGet s.inode k (NDIRECT + 1) := by
    simp [blockAt]
  intro hm
  obtain ⟨-, ⟨p, hp, hpb⟩ | ⟨j, hj⟩⟩ := mem_truncated.mp hm
  · have := h.inj (.addr (NDIRECT + 1)) (.addr p) (hat ▸ hD) (hat.trans hpb.symm)
    have := Place.addr.inj this
    omega
  · have := h.inj (.addr (NDIRECT + 1)) (.single j) (hat ▸ hD) (hat.trans hj.symm)
    cases this

end Tree

/-! ### Freeing a list of blocks -/

/-- `s'` is `s` after `bfree` of the blocks `bs`; the addresses in slot `k` may have changed. -/
structure Cleared (k : Nat) (bs : List Nat) (s s' : State) : Prop extends Beside k s s' where
  volume : Volume s'
  used_eq : ∀ c < FSSIZE, used s'.sector c = if c ∈ bs then false else used s.sector c
  sector : ∀ c < LOGSTART, ¬ IsBitmap c → s'.sector c = s.sector c
  lh : ∀ c, c ∈ s'.log.lh ↔ c ∈ s.log.lh ∨ c ∈ bs.map (BBLOCK · NINODES)

section Cleared

variable {k b : Nat} {bs bs' : List Nat} {s s' s'' : State} {Q : Unit → State → Prop}
  {E : Option Panic → State → Prop}

lemma Cleared.refl (h : Volume s) : Cleared k [] s s where
  toBeside := Beside.refl k s
  volume := h
  used_eq := by simp
  sector _ _ _ := rfl
  lh := by simp

lemma Cleared.trans (h : Cleared k bs s s') (h' : Cleared k bs' s' s'') :
    Cleared k (bs ++ bs') s s'' where
  toBeside := h.toBeside.trans h'.toBeside
  volume := h'.volume
  used_eq c hc := by
    rw [h'.used_eq c hc, h.used_eq c hc]
    simp only [mem_append]
    split_ifs <;> simp_all
  sector c hc hnb := (h'.sector c hc hnb).trans (h.sector c hc hnb)
  lh c := by
    rw [h'.lh, h.lh, map_append, mem_append, or_assoc]

lemma Freed.cleared (h : Freed s b s') : Cleared k [b] s s' where
  disksize := h.disk.disksize
  inode := by rw [h.disk.inode]; exact (upd_eq_self _ _).symm
  file := h.disk.file
  proc := h.disk.proc
  input := h.disk.input
  busy := h.disk.busy
  subset := h.disk.subset
  volume := h.volume
  used_eq c hc := by
    rw [h.used_eq c hc]
    simp
  sector := h.sector
  lh c := by
    rw [h.lh]
    split_ifs with hm
    · refine ⟨.inl, ?_⟩
      rintro (hc | hc)
      · exact hc
      · obtain rfl : c = BBLOCK b NINODES := by simpa using hc
        exact hm
    · simp

lemma Cleared.data (h : Cleared k bs s s') (hb : b ∉ bs) (hd : Data s.sector b) :
    Data s'.sector b := by
  refine ⟨hd.1, hd.2.1, ?_⟩
  rw [h.used_eq b hd.lt_size, if_neg hb]
  exact hd.2.2

lemma wp_bfree_data (h : Volume s) (hd : Data s.sector b) (hE : ¬ Room s 1 → Refused E s)
    (hQ : ∀ s', Cleared k [b] s s' → s'.inode = s.inode → Q () s') :
    (bfree ROOTDEV b).wp Q E s :=
  wp_bfree_used h hd.1 hd.lt_size hd.2.2 hE fun s' hf _ => hQ s' hf.cleared hf.disk.inode

/-- Setting an address of slot `k` frees nothing. -/
lemma cleared_setAddr (h : Volume s) {p v : Nat} (hp : p < NDIRECT + 1) :
    Cleared k [] s { s with inode := addrsSet s.inode k p v } where
  disksize := rfl
  inode := by
    rw [addrsSet_of_lt _ _ hp]
    simp
  file := rfl
  proc := rfl
  input := rfl
  busy := rfl
  subset := List.Subset.refl _
  volume := h.congr rfl rfl rfl rfl rfl
  used_eq := by simp
  sector _ _ _ := rfl
  lh := by simp

end Cleared

/-! ### The loops of `itrunc` -/

section Loops

variable {k i : Nat} {s s' : State} {Q : Unit → State → Prop} {E : Option Panic → State → Prop}

/-- The addresses `i`, …, `i + n - 1` of slot `k` are zero and the other words are those of `s`. -/
def ZeroAddrs (k i n : Nat) (s s' : State) : Prop :=
  ∀ p < NDIRECT + 1, (s'.inode k).addrs p =
    if i ≤ p ∧ p < i + n then 0 else (s.inode k).addrs p

/-- The loop frees each direct block and zeroes its slot. -/
lemma wp_itruncDirect {n : Nat} (hn : i + n ≤ NDIRECT) (hv : Volume s)
    (hdev : (s.inode k).dev = ROOTDEV)
    (hd : ∀ b ∈ blocksOf (addrsGet s.inode k) i n, Data s.sector b)
    (hnd : (blocksOf (addrsGet s.inode k) i n).Nodup)
    (hE : ∀ bs s1, bs ⊆ blocksOf (addrsGet s.inode k) i n → Cleared k bs s s1 → ¬ Room s1 1 →
      Refused E s1)
    (hQ : ∀ s', Cleared k (blocksOf (addrsGet s.inode k) i n) s s' → ZeroAddrs k i n s s' →
      Q () s') : (itruncDirect k i n).wp Q E s := by
  induction n generalizing i s with
  | zero =>
    refine hQ s (Cleared.refl hv) fun p _ => ?_
    rw [if_neg (by omega)]
  | succ n ih =>
    rw [itruncDirect, wp_read, wp_read]
    rw [blocksOf_succ] at hd hnd hE hQ
    split_ifs with h0
    · simp only [if_pos h0] at hd hnd hE hQ
      refine ih (by omega) hv hdev hd hnd hE fun s' hc hz => hQ s' hc fun p hp => ?_
      rw [hz p hp]
      by_cases hpi : p = i
      · rw [hpi, if_neg (by omega), if_pos (by omega), ← addrsGet_of_lt (by omega), h0]
      · split_ifs <;> first | rfl | omega
    · simp only [if_neg h0] at hd hnd hE hQ
      obtain ⟨hni, hnd⟩ := nodup_cons.mp hnd
      rw [hdev]
      refine wp_bind.mpr (wp_bfree_data (k := k) hv (hd _ mem_cons_self)
        (hE [] s (nil_subset _) (Cleared.refl hv)) fun s1 h1 hin1 => ?_)
      -- the state after the store into `addrs[i]`
      have h2 := h1.trans (cleared_setAddr (k := k) (p := i) (v := 0) h1.volume (by omega))
      rw [append_nil] at h2
      rw [setAddr, wp_write]
      set s2 : State := { s1 with inode := addrsSet s1.inode k i 0 } with hs2
      have ha2 : (s2.inode k).addrs = upd (s.inode k).addrs i 0 := by
        change (addrsSet s1.inode k i 0 k).addrs = _
        rw [addrsSet_of_lt _ _ (by omega), upd_same, hin1]
      have hrest : blocksOf (addrsGet s2.inode k) (i + 1) n =
          blocksOf (addrsGet s.inode k) (i + 1) n := by
        refine blocksOf_congr fun p hp hp' => ?_
        rw [addrsGet_of_lt (by omega), addrsGet_of_lt (by omega), ha2,
          upd_ne (by omega)]
      refine ih (by omega) h2.volume ?_ ?_ ?_ ?_ ?_
      · rw [h2.toBeside.slot]
        exact hdev
      · intro b hb
        rw [hrest] at hb
        refine h2.data (fun hm => hni ?_) (hd b (mem_cons_of_mem _ hb))
        exact (mem_singleton.mp hm) ▸ hb
      · rw [hrest]
        exact hnd
      · intro bs s3 hsub h3
        rw [hrest] at hsub
        exact hE _ s3 (cons_subset_cons _ hsub) (h2.trans h3)
      · intro s3 h3 hz
        rw [hrest] at h3
        refine hQ s3 (h2.trans h3) fun p hp => ?_
        rw [hz p hp, ha2]
        by_cases hpi : p = i
        · rw [hpi, if_neg (by omega), if_pos (by omega), upd_same]
        · rw [upd_ne hpi]
          split_ifs <;> first | rfl | omega

lemma wp_itruncEntries {n : Nat} (hn : i + n ≤ NINDIRECT) {bp : Bytes} {f : Nat → Nat}
    (hf : ∀ j < NINDIRECT, f j = bp.le (4 * j) 4) (hv : Volume s)
    (hd : ∀ b ∈ blocksOf f i n, Data s.sector b) (hnd : (blocksOf f i n).Nodup)
    (hE : ∀ bs s1, bs ⊆ blocksOf f i n → Cleared k bs s s1 → ¬ Room s1 1 → Refused E s1)
    (hQ : ∀ s', Cleared k (blocksOf f i n) s s' → s'.inode = s.inode → Q () s') :
    (itruncEntries ROOTDEV bp i n).wp Q E s := by
  induction n generalizing i s with
  | zero => exact hQ s (Cleared.refl hv) rfl
  | succ n ih =>
    rw [itruncEntries, ← hf i (by omega)]
    rw [blocksOf_succ] at hd hnd hE hQ
    split_ifs with h0
    · simp only [if_pos h0] at hd hnd hE hQ
      exact ih (by omega) hv hd hnd hE hQ
    · simp only [if_neg h0] at hd hnd hE hQ
      obtain ⟨hni, hnd⟩ := nodup_cons.mp hnd
      refine wp_bind.mpr (wp_bfree_data (k := k) hv (hd _ mem_cons_self)
        (hE [] s (nil_subset _) (Cleared.refl hv)) fun s1 h1 hin1 => ?_)
      refine ih (by omega) h1.volume ?_ hnd ?_ ?_
      · intro b hb
        refine h1.data (fun hm => hni ?_) (hd b (mem_cons_of_mem _ hb))
        exact (mem_singleton.mp hm) ▸ hb
      · intro bs s2 hsub h2
        exact hE _ s2 (cons_subset_cons _ hsub) (h1.trans h2)
      · intro s2 h2 hin2
        exact hQ s2 (h1.trans h2) (hin2.trans hin1)

end Loops

/-! ### The whole call -/

/-- `s'` is `s` after `itrunc` has freed the first two levels of the tree. -/
structure Truncated (k : Nat) (s s' : State) : Prop where
  used_eq : ∀ c < FSSIZE, used s'.sector c = if c ∈ truncated s k then false else used s.sector c
  size : (s'.inode k).size = 0
  addrs : ∀ p ≤ NDIRECT, (s'.inode k).addrs p = 0
  next : s'.inode (k + 1) = s.inode (k + 1)
  dinode : dinode s'.sector (s.inode k).inum = (s'.inode k).dinode

section Call

variable {k : Nat} {bs : List Nat} {s s' : State} {Q : Unit → State → Prop}
  {E : Option Panic → State → Prop}

lemma Cleared.card (h : Cleared k bs s s') :
    s'.log.lh.length = (s.log.lh ++ bs.map (BBLOCK · NINODES)).toFinset.card := by
  rw [← toFinset_card_of_nodup h.volume.nodup]
  congr 1
  ext c
  rw [mem_toFinset, mem_toFinset, mem_append, h.lh]

lemma Cleared.room (h : Cleared k bs s s') (hbs : bs ⊆ truncated s k) (hf : TruncFits s k) :
    Room s' 1 := by
  refine ⟨h.busy.trans hf.1, ?_⟩
  rw [h.card]
  refine lt_of_le_of_lt (Finset.card_le_card ?_) hf.2
  intro c hc
  rw [mem_toFinset, mem_append] at hc ⊢
  exact hc.imp_right fun hc => map_subset _ hbs hc

lemma Cleared.truncFits (h : Cleared k (truncated s k) s s') (hr : Room s' 1) : TruncFits s k :=
  ⟨h.busy ▸ hr.1, h.card ▸ hr.2⟩

/-- The end of `itrunc`: the size is set to zero and the inode is stored. -/
lemma wp_itrunc_store (h : Cleared k (truncated s k) s s') (hz : ZeroAddrs k 0 (NDIRECT + 1) s s')
    (hdev : (s.inode k).dev = ROOTDEV) (hi : (s.inode k).inum < NINODES)
    (hE : ¬ Room s' 1 → Refused E (s'.setInode k fun ip => { ip with size := 0 }))
    (hQ : ∀ s'', TruncFits s k → Truncated k s s'' → Q () s'') :
    (do write fun s => s.setInode k fun ip => { ip with size := 0 }
        iupdate k).wp Q E s' := by
  rw [wp_write]
  obtain ⟨s1, hs1⟩ : ∃ s1, s1 = s'.setInode k fun ip => { ip with size := 0 } := ⟨_, rfl⟩
  rw [← hs1] at hE ⊢
  have hv1 : Volume s1 := by
    rw [hs1]
    exact h.volume.congr rfl rfl rfl rfl rfl
  have hsect : s1.sector = s'.sector := by rw [hs1]; rfl
  have hlog : s1.log = s'.log := by rw [hs1]; rfl
  obtain ⟨ip, hip⟩ : ∃ ip, s1.inode k = ip := ⟨_, rfl⟩
  have hset : ip = { s'.inode k with size := 0 } := by rw [← hip, hs1, State.setInode_inode_same]
  have hsize : ip.size = 0 := by rw [hset]
  have hinum : ip.inum = (s.inode k).inum := by rw [hset, h.toBeside.slot]
  have hdev1 : ip.dev = ROOTDEV := by
    rw [hset, h.toBeside.slot]
    exact hdev
  have haddr : ∀ p ≤ NDIRECT, ip.addrs p = 0 := fun p hp => by
    rw [hset]
    exact (hz p (by omega)).trans (if_pos (by omega))
  have hb := IBLOCK_lt hi
  have hlt : IBLOCK (s.inode k).inum < LOGSTART := hb.trans (by decide)
  have hnb : ¬ IsBitmap (IBLOCK (s.inode k).inum) := fun hm => absurd hm.1 (Nat.not_le.mpr hb)
  have hone : IBLOCK (s.inode k).inum ≠ 1 := by
    rw [IBLOCK_eq]
    omega
  rw [iupdate, wp_read, hip, hinum, hdev1]
  refine wp_bread hv1.toLayout (hlt.trans (by decide))
    (wp_logWrite_room hv1.toLayout ?_ fun hr => ?_)
  · intro hno
    exact hE fun hr => hno ⟨hlog ▸ hr.1, hlog ▸ hr.2⟩
  obtain ⟨d, hd⟩ : ∃ d, d = putDinode (s1.sector (IBLOCK (s.inode k).inum))
    ((s.inode k).inum % IPB) ip := ⟨_, rfl⟩
  have hused : ∀ c < FSSIZE,
      used (s1.logged (IBLOCK (s.inode k).inum) d).sector c = used s1.sector c :=
    (hv1.logged hlt hone hnb hr.2).2
  rw [← hd]
  refine hQ _ (h.truncFits ⟨hlog ▸ hr.1, hlog ▸ hr.2⟩) ⟨fun c hc => ?_, ?_, fun p hp => ?_, ?_, ?_⟩
  · rw [hused c hc, hsect]
    exact h.used_eq c hc
  · rw [logged_inode, hip, hsize]
  · rw [logged_inode, hip, haddr p hp]
  · rw [logged_inode, hs1, State.setInode_inode_ne _ _ (by omega), h.inode, upd_ne (by omega)]
  · have hfits : ip.Fits := ⟨by rw [hsize]; decide, fun p hp => by rw [haddr p hp]; decide⟩
    have heq : dinode (upd s1.sector (IBLOCK (s.inode k).inum) d) (s.inode k).inum = ip.dinode := by
      rw [hd, dinode_upd_putDinode hfits, if_pos rfl]
    rw [logged_inode, hip, ← heq]
    exact dinode_congr (hv1.toLayout.sector_logged hlt)

/-- `itrunc` frees the first two levels of the tree, or stops because the log is full. -/
lemma wp_itrunc (hv : Volume s) (hdev : (s.inode k).dev = ROOTDEV) (hi : (s.inode k).inum < NINODES)
    (h : Pointers (blockAt s k) (Data s.sector))
    (hE : ¬ TruncFits s k → ∀ s', Refused E s')
    (hQ : ∀ s', TruncFits s k → Truncated k s s' → Q () s') : (itrunc k).wp Q E s := by
  have hdata : ∀ b ∈ truncated s k, Data s.sector b := fun b => data_truncated h
  have hnd := nodup_truncated h
  have hstop : ∀ bs s1, bs ⊆ truncated s k → Cleared k bs s s1 → ¬ Room s1 1 → ∀ s', Refused E s' :=
    fun bs s1 hbs h1 hno => hE fun hf => hno (h1.room hbs hf)
  have hnd1 := nodup_append.mp hnd
  rw [itrunc]
  refine wp_bind.mpr (wp_itruncDirect (by omega) hv hdev
    (fun b hb => hdata b (mem_append_left _ hb)) hnd1.1 ?_ fun s1 h1 hz1 => ?_)
  · intro bs s1 hbs h1 hno
    exact hstop bs s1 (List.Subset.trans hbs (subset_append_left _ _)) h1 hno s1
  have hdev1 : (s1.inode k).dev = ROOTDEV := by
    rw [h1.toBeside.slot]
    exact hdev
  have haddr1 : addrsGet s1.inode k NDIRECT = addrsGet s.inode k NDIRECT := by
    rw [addrsGet_of_lt (by omega), addrsGet_of_lt (by omega), hz1 _ (by omega),
      if_neg (by omega)]
  rw [wp_read, wp_read, hdev1, haddr1]
  -- the direct blocks are freed, and without an indirect block that is all
  by_cases h0 : addrsGet s.inode k NDIRECT = 0
  · rw [K.when_neg (by simpa using h0), pure_bind]
    have heq : truncated s k = blocksOf (addrsGet s.inode k) 0 NDIRECT := by
      have hnil : ∀ n i, blocksOf (entryOf s.sector (addrsGet s.inode k NDIRECT)) i n = [] := by
        intro n
        induction n with
        | zero => intro i; rfl
        | succ n ih =>
          intro i
          rw [blocksOf_succ, h0, entryOf_zero, if_pos rfl, ← h0, ih]
      rw [truncated, hnil, blocksOf_succ, if_pos h0, blocksOf_zero, append_nil, append_nil]
    rw [← heq] at h1
    refine wp_itrunc_store h1 ?_ hdev hi (fun hno => hstop _ _ (List.Subset.refl _) h1 hno _) hQ
    intro p hp
    rw [hz1 p hp, if_pos (c := 0 ≤ p ∧ p < 0 + (NDIRECT + 1)) (by omega)]
    split_ifs with hp'
    · rfl
    · rw [show p = NDIRECT by omega, ← addrsGet_of_lt (by omega), h0]
  · rw [K.when_pos (by simpa using h0)]
    have hlast : blocksOf (addrsGet s.inode k) NDIRECT 1 = [addrsGet s.inode k NDIRECT] := by
      rw [blocksOf_succ, if_neg h0, blocksOf_zero]
    rw [truncated, hlast] at hdata hnd
    obtain ⟨-, hnd2, hdis⟩ := nodup_append.mp hnd
    obtain ⟨hnd3, -, hdis'⟩ := nodup_append.mp hnd2
    have hind : Data s.sector (addrsGet s.inode k NDIRECT) := hdata _ (by simp)
    have hsect1 : s1.sector (addrsGet s.inode k NDIRECT) = s.sector (addrsGet s.inode k NDIRECT) :=
      h1.sector _ hind.2.1 hind.not_bitmap
    rw [bind_assoc]
    refine wp_bread h1.volume.toLayout hind.lt_size ?_
    rw [hsect1, bind_assoc]
    refine wp_bind.mpr (wp_itruncEntries (k := k)
      (f := entryOf s.sector (addrsGet s.inode k NDIRECT)) (by omega)
      (fun j hj => entryOf_of_ne h0 hj) h1.volume ?_ hnd3 ?_ fun s2 h2 hin2 => ?_)
    · intro b hb
      refine h1.data (fun hm => ?_) (hdata b (mem_append_right _ (mem_append_left _ hb)))
      exact hdis b hm b (mem_append_left _ hb) rfl
    · intro bs s2 hbs h2 hno
      refine hstop _ s2 ?_ (h1.trans h2) hno s2
      rw [truncated]
      exact append_subset.mpr ⟨subset_append_left _ _, fun b hb =>
        mem_append_right _ (mem_append_left _ (hbs hb))⟩
    -- after its entries the indirect block is freed itself
    have h12 := h1.trans h2
    rw [bind_assoc]
    refine wp_bind.mpr (wp_bfree_data (k := k) h12.volume ?_ ?_ fun s3 h3 hin3 => ?_)
    · refine h12.data (fun hm => ?_) hind
      rcases mem_append.mp hm with hm | hm
      · exact hdis _ hm _ (mem_append_right _ (mem_singleton_self _)) rfl
      · exact hdis' _ hm _ (mem_singleton_self _) rfl
    · intro hno
      refine hstop _ s2 ?_ h12 hno s2
      rw [truncated]
      exact append_subset.mpr ⟨subset_append_left _ _, fun b hb =>
        mem_append_right _ (mem_append_left _ hb)⟩
    have h4 := (h12.trans h3).trans
      (cleared_setAddr (k := k) (p := NDIRECT) (v := 0) h3.volume (by omega))
    have heq : blocksOf (addrsGet s.inode k) 0 NDIRECT ++
        blocksOf (entryOf s.sector (addrsGet s.inode k NDIRECT)) 0 NINDIRECT ++
          [addrsGet s.inode k NDIRECT] ++ [] = truncated s k := by
      rw [truncated, hlast, append_nil, append_assoc]
    rw [heq] at h4
    rw [setAddr, wp_write]
    refine wp_itrunc_store h4 ?_ hdev hi (fun hno => hstop _ _ (List.Subset.refl _) h4 hno _) hQ
    intro p hp
    change (addrsSet s3.inode k NDIRECT 0 k).addrs p = _
    rw [addrsSet_of_lt _ _ (by omega), upd_same, if_pos (by omega), hin3, hin2]
    change upd (s1.inode k).addrs NDIRECT 0 p = 0
    by_cases hpi : p = NDIRECT
    · rw [hpi, upd_same]
    · rw [upd_ne hpi, hz1 p hp, if_pos (by omega)]

/-- What `itrunc` leaves is a released inode exactly if there was no doubly indirect block. -/
lemma Truncated.released_iff (h : Truncated k s s') (hb : Pointers (blockAt s k) (Data s.sector)) :
    Released s k s' ↔ addrsGet s.inode k (NDIRECT + 1) = 0 := by
  constructor
  · intro hr
    by_contra hD
    have hat : blockAt s k (.addr (NDIRECT + 1)) = addrsGet s.inode k (NDIRECT + 1) := by
      simp [blockAt]
    have hdata : Data s.sector (addrsGet s.inode k (NDIRECT + 1)) := by
      rw [← hat]
      exact hb.valid _ (hat ▸ hD)
    have hkeep := h.used_eq _ hdata.lt_size
    rw [if_neg (doubly_not_truncated hb hD), hdata.2.2] at hkeep
    exact ((hr.bits _ hdata.lt_size).mp hkeep).2 ⟨hD, _, hat⟩
  · intro hD
    refine ⟨fun b hb => ?_, h.size, fun p hp => ?_, ?_, fun p => ?_⟩
    · rw [h.used_eq b hb, ← mem_truncated_iff hD]
      split_ifs with hm <;> simp [hm]
    · rcases Nat.lt_or_ge p (NDIRECT + 1) with hlt | hge
      · rw [addrsGet_of_lt hlt]
        exact h.addrs p (Nat.le_of_lt_succ hlt)
      · rw [show p = NDIRECT + 1 by omega, addrsGet_last, h.next, ← addrsGet_last]
        exact hD
    · rw [h.dinode]
      exact h.size
    · rw [h.dinode]
      change cutAddrs (s'.inode k).addrs p = 0
      unfold cutAddrs
      split_ifs with hp
      · exact h.addrs p hp
      · rfl

end Call

/-! ### An inode with one block -/

/-- An inode cache whose slot 0 holds an inode of the disk with block `r` at `addrs[p]`. -/
def oneBlock (p r : Nat) : Nat → Inode :=
  addrsSet (fun k => if k = 0 then { dev := ROOTDEV, inum := 2, ref := 1, valid := true } else {}) 0
    p r

section OneBlock

variable {s : State} {p r : Nat}

lemma oneBlock_slot (hp : p = 0 ∨ p = NDIRECT + 1) :
    (oneBlock p r 0).dev = ROOTDEV ∧ (oneBlock p r 0).inum = 2 := by
  rcases hp with rfl | rfl <;> exact ⟨rfl, rfl⟩

lemma addrsGet_oneBlock (hp : p = 0 ∨ p = NDIRECT + 1) {q : Nat} (hq : q ≤ NDIRECT + 1) :
    addrsGet (oneBlock p r) 0 q = if q = p then r else 0 := by
  simp only [NDIRECT] at hq
  rcases hp with rfl | rfl <;> interval_cases q <;> rfl

/-- The block is the only one of the tree, if it has no entries itself. -/
lemma blockAt_oneBlock (hp : p = 0 ∨ p = NDIRECT + 1) (hz : ∀ j < BSIZE, s.sector r j = 0)
    (x : Place) :
    blockAt { s with inode := oneBlock p r } 0 x = if x = .addr p then r else 0 := by
  have hentry : ∀ j, entryOf s.sector r j = 0 := by
    intro j
    unfold entryOf
    split_ifs with h
    · refine le_eq_zero fun i _ hi => hz i ?_
      have := h.2
      simp only [NINDIRECT, BSIZE] at *
      omega
    · rfl
  have hind : ∀ q ≤ NDIRECT + 1, ∀ j, entryOf s.sector (addrsGet (oneBlock p r) 0 q) j = 0 := by
    intro q hq j
    rw [addrsGet_oneBlock hp hq]
    split_ifs
    · exact hentry j
    · exact entryOf_zero
  cases x with
  | addr q =>
    simp only [blockAt, Place.addr.injEq]
    by_cases hq : q ≤ NDIRECT + 1
    · rw [if_pos hq, addrsGet_oneBlock hp hq]
    · rw [if_neg hq, if_neg]
      rintro rfl
      omega
  | single j => simpa [blockAt] using hind NDIRECT (by omega) j
  | middle j => simpa [blockAt] using hind (NDIRECT + 1) le_rfl j
  | double j l =>
    have h0 : entryOf s.sector (addrsGet (oneBlock p r) 0 (NDIRECT + 1)) j = 0 := hind _ le_rfl j
    simp only [blockAt, h0, entryOf_zero, reduceCtorEq, if_false]

/-- On the image without host files, the first block that `balloc` takes can be the only block of
an inode. -/
lemma exists_oneBlock (hp : p = 0 ∨ p = NDIRECT + 1) : ∃ s r, Volume s ∧ s.inode = oneBlock p r ∧
    r ≠ 0 ∧ Pointers (blockAt s 0) (Data s.sector) ∧ TruncFits s 0 := by
  obtain ⟨img, himg⟩ : ∃ img, Mkfs.main [] = some img :=
    Option.isSome_iff_exists.mp (by decide +kernel)
  have hlt : img.freeblock < LOGSTART := (mkfs_freeblock_le himg).trans (by decide)
  obtain ⟨hv1, hsame1, hb1, hlh1, -⟩ := beginTrans_ok (Mkfs.volume_boot himg (by decide))
    (run_beginTrans (s := boot img.sect) rfl)
  have hp1 : Packed img.freeblock _ := fun b hb =>
    (hsame1.used_eq hb).trans (packed_boot himg (by decide) b hb)
  obtain ⟨s1, hs1⟩ : ∃ s1 : State,
    s1 = { boot img.sect with log := { (boot img.sect).log with busy := true } } := ⟨_, rfl⟩
  rw [← hs1] at hv1 hb1 hlh1 hp1
  have hlen1 : s1.log.lh.length = 0 := by rw [hlh1]; rfl
  have htook := hv1.took hlt (hp1.clear (hlt.trans (by decide))) (by rw [hlen1]; decide)
    (logged_length_le.trans_lt (by rw [hlen1]; decide))
  generalize s1.take img.freeblock = s2 at htook
  have hdata := htook.data_new
  have hat := blockAt_oneBlock (s := s2) hp htook.zeroed
  have honly : ∀ x, blockAt { s2 with inode := oneBlock p img.freeblock } 0 x ≠ 0 →
      x = .addr p := by
    intro x hx
    by_contra hne
    exact hx ((hat x).trans (if_neg hne))
  refine ⟨{ s2 with inode := oneBlock p img.freeblock }, img.freeblock,
    htook.volume.congr rfl rfl rfl rfl rfl, rfl, hdata.ne_zero,
      ⟨fun x hx => ?_, fun x y hx hxy => ?_⟩,
    htook.disk.busy.trans hb1, ?_⟩
  · rw [hat, if_pos (honly x hx)]
    exact hdata
  · exact (honly x hx).trans (honly y (hxy ▸ hx)).symm
  · -- the log holds two blocks, and one bitmap block at most is added
    have hmap : ((truncated { s2 with inode := oneBlock p img.freeblock } 0).map
        (BBLOCK · NINODES)).toFinset ⊆ {BBLOCK img.freeblock NINODES} := by
      intro c hc
      obtain ⟨b, hb, rfl⟩ := mem_map.mp (mem_toFinset.mp hc)
      obtain ⟨h0, x, rfl⟩ := truncated_sub hb
      rw [hat, if_pos (honly x h0)]
      simp
    have hcard := (Finset.card_le_card hmap).trans_eq (Finset.card_singleton _)
    rw [toFinset_append]
    have h1 := Finset.card_union_le s2.log.lh.toFinset
      ((truncated { s2 with inode := oneBlock p img.freeblock } 0).map (BBLOCK · NINODES)).toFinset
    have h2 := toFinset_card_le s2.log.lh
    have h3 := htook.length
    change _ < 9
    refine h1.trans_lt ?_
    omega

end OneBlock

/-! ### The result -/

section Result

variable {k : Nat} {s : State}

/-- `itrunc` of an inode whose blocks are distinct data blocks in use never frees a free block. It
releases the blocks of the inode, and no others, exactly if the inode has no doubly indirect block
and the bitmap blocks to write leave room in the log. The doubly indirect block is
`addrs[NDIRECT+1]`, which lies behind the array, in the `dev` of the next entry of the cache: there
`hb` takes it for a pointer, as `bmap` does. -/
theorem itrunc_releases_iff (hv : Volume s) (hdev : (s.inode k).dev = ROOTDEV)
    (hi : (s.inode k).inum < NINODES) (hb : Pointers (blockAt s k) (Data s.sector)) :
    (∀ s', (itrunc k).run s ≠ .stop (some .freeingFreeBlock) s') ∧
      ((∃ s', (itrunc k).run s = .ok () s' ∧ Released s k s') ↔
        addrsGet s.inode k (NDIRECT + 1) = 0 ∧ TruncFits s k) := by
  have hwp := wp_itrunc (Q := fun _ s' => TruncFits s k ∧ Truncated k s s')
    (E := fun e _ => ¬ TruncFits s k ∧ e ≠ some .freeingFreeBlock) hv hdev hi hb
    (fun hf _ => ⟨⟨hf, by decide⟩, hf, by decide⟩) fun s' hf ht => ⟨hf, ht⟩
  refine ⟨fun s' hr => ?_, ?_, ?_⟩
  · unfold wp at hwp
    rw [hr] at hwp
    exact hwp.2 rfl
  · rintro ⟨s', hr, hrel⟩
    obtain ⟨hf, ht⟩ := wp_ok hwp hr
    exact ⟨(ht.released_iff hb).mp hrel, hf⟩
  · rintro ⟨hD, hf⟩
    obtain ⟨⟨⟩, s', hr, -, ht⟩ := wp_total (wp_mono hwp (fun _ _ h => h) fun _ _ h => h.1 hf)
    exact ⟨s', hr, (ht.released_iff hb).mpr hD⟩

/-- On the image without host files, with a doubly indirect block `r` that has no entries: `itrunc`
returns, and block `r` stays marked in use. -/
theorem itrunc_keeps_doubly_indirect : ∃ s r s', Volume s ∧ s.inode = oneBlock (NDIRECT + 1) r ∧
    Pointers (blockAt s 0) (Data s.sector) ∧ InTree s 0 r ∧ (itrunc 0).run s = .ok () s' ∧
    used s'.sector r = true := by
  obtain ⟨s, r, hv, hin, hr0, hb, hf⟩ := exists_oneBlock (.inr rfl)
  have hslot := oneBlock_slot (r := r) (.inr rfl)
  have hD : addrsGet s.inode 0 (NDIRECT + 1) = r := by
    rw [hin, addrsGet_oneBlock (.inr rfl) le_rfl, if_pos rfl]
  have hat : blockAt s 0 (.addr (NDIRECT + 1)) = r := by rw [blockAt, if_pos le_rfl, hD]
  obtain ⟨⟨⟩, s', hrun, ht⟩ := wp_total (wp_itrunc (Q := fun _ s' => Truncated 0 s s')
    (E := fun _ _ => False) hv (by rw [hin]; exact hslot.1) (by rw [hin, hslot.2]; decide) hb
    (fun hno => absurd hf hno) fun s' _ ht => ht)
  have hdata : Data s.sector r := by
    rw [← hat]
    exact hb.valid _ (hat ▸ hr0)
  refine ⟨s, r, s', hv, hin, hb, ⟨hr0, _, hat⟩, hrun, ?_⟩
  rw [ht.used_eq r hdata.lt_size, if_neg (by rw [← hD]; exact doubly_not_truncated hb (hD ▸ hr0))]
  exact hdata.2.2

/-- On the image without host files, `itrunc` of an inode with one direct block releases it. -/
theorem itrunc_releases_direct : ∃ s r s', Volume s ∧ s.inode = oneBlock 0 r ∧ InTree s 0 r ∧
    (itrunc 0).run s = .ok () s' ∧ Released s 0 s' := by
  obtain ⟨s, r, hv, hin, hr0, hb, hf⟩ := exists_oneBlock (.inl rfl)
  have hslot := oneBlock_slot (r := r) (.inl rfl)
  have hat : blockAt s 0 (.addr 0) = r := by
    rw [blockAt, if_pos (Nat.zero_le _), hin, addrsGet_oneBlock (.inl rfl)
      (Nat.zero_le _), if_pos rfl]
  have hD : addrsGet s.inode 0 (NDIRECT + 1) = 0 := by
    rw [hin, addrsGet_oneBlock (.inl rfl) le_rfl, if_neg (by decide)]
  obtain ⟨s', hrun, hrel⟩ := (itrunc_releases_iff hv (by rw [hin]; exact hslot.1)
    (by rw [hin, hslot.2]; decide) hb).2.mpr ⟨hD, hf⟩
  exact ⟨s, r, s', hv, hin, ⟨hr0, _, hat⟩, hrun, hrel⟩

end Result

end Xv6
