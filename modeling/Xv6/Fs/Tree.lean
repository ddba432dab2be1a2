import Xv6.Fs.Bitmap
import Xv6.Lib.Pointers

/-!
# The blocks of an inode and `bmap`

The pointers of an inode with addresses `a` are numbered `0` to `NPOS - 1`: the direct blocks, the
indirect block, and the entries of the indirect block. Files that reach past them go through
`addrs[NDIRECT+1]`, which the in-memory inode does not have.
-/

namespace Xv6

open Lib Prog

/-- Pointers of an inode: direct blocks, the indirect block, and its entries. -/
def NPOS : Nat := NDIRECT + 1 + NINDIRECT

/-- Blocks of a file that direct blocks and the indirect block can hold. -/
def SMALLFILE : Nat := NDIRECT + NINDIRECT

/-- Pointer `p` of an inode with addresses `a`. -/
def ptr (sect : Nat → Bytes) (a : Nat → Nat) (p : Nat) : Nat :=
  if p ≤ NDIRECT then a p
  else if p < NPOS ∧ a NDIRECT ≠ 0 then (sect (a NDIRECT)).le (4 * (p - (NDIRECT + 1))) 4
  else 0

/-- The pointer of the `bn`th block. -/
def posOf (bn : Nat) : Nat := if bn < NDIRECT then bn else bn + 1

/-! ### Pointers -/

section Ptr

variable {sect sect' : Nat → Bytes} {a a' : Nat → Nat} {p q e r : Nat}

lemma ptr_direct (hp : p ≤ NDIRECT) : ptr sect a p = a p := if_pos hp

lemma ptr_entry (he : e < NINDIRECT) (ha : a NDIRECT ≠ 0) :
    ptr sect a (NDIRECT + 1 + e) = (sect (a NDIRECT)).le (4 * e) 4 := by
  unfold ptr
  rw [if_neg (by omega), if_pos ⟨by unfold NPOS; omega, ha⟩, Nat.add_sub_cancel_left]

lemma ptr_of_no_indirect (hp : NDIRECT < p) (ha : a NDIRECT = 0) : ptr sect a p = 0 := by
  unfold ptr
  rw [if_neg (by omega), if_neg fun h => h.2 ha]

lemma ptr_eq_zero (hp : NPOS ≤ p) : ptr sect a p = 0 := by
  unfold ptr
  unfold NPOS at hp
  rw [if_neg (by omega), if_neg fun h => by unfold NPOS at h; omega]

lemma ptr_congr (ha : ∀ p ≤ NDIRECT, a' p = a p)
    (hs : a NDIRECT ≠ 0 → sect' (a NDIRECT) = sect (a NDIRECT)) :
    ptr sect' a' p = ptr sect a p := by
  unfold ptr
  split_ifs with h1 h2 h3 h3
  · exact ha p h1
  · rw [ha _ le_rfl, hs h3.2]
  · exact absurd ⟨h2.1, ha _ le_rfl ▸ h2.2⟩ h3
  · exact absurd ⟨h3.1, (ha _ le_rfl).symm ▸ h3.2⟩ h2
  · rfl

lemma le_eq_zero {bp : Bytes} {o n : Nat} (h : ∀ j, o ≤ j → j < o + n → bp j = 0) :
    bp.le o n = 0 := by
  induction n generalizing o with
  | zero => rfl
  | succ n ih =>
    rw [Bytes.le, h o le_rfl (by omega), ih fun j h1 h2 => h j (by omega) (by omega)]
    rfl

/-- Setting an address that was zero; a new indirect block is zeroed, so it has no entries. -/
lemma ptr_setAddr (hp : p ≤ NDIRECT) (h0 : a p = 0)
    (hs : a NDIRECT ≠ 0 → sect' (a NDIRECT) = sect (a NDIRECT))
    (hz : p = NDIRECT → ∀ j < BSIZE, sect' r j = 0) :
    ptr sect' (upd a p r) q = if q = p then r else ptr sect a q := by
  rcases Nat.lt_or_ge NDIRECT q with hq | hq
  · rw [if_neg (by omega)]
    by_cases hpn : p = NDIRECT
    · subst hpn
      rw [ptr_of_no_indirect hq h0]
      unfold ptr
      rw [if_neg (by omega), upd_same]
      split_ifs with h
      · refine le_eq_zero fun j _ hj => hz rfl j ?_
        have := h.1
        simp only [NPOS, NDIRECT, NINDIRECT, BSIZE] at *
        omega
      · rfl
    · have hsect : ptr sect' a q = ptr sect a q := ptr_congr (fun _ _ => rfl) hs
      have hq' : ¬ q ≤ NDIRECT := Nat.not_le.mpr hq
      rw [← hsect]
      unfold ptr
      rw [if_neg hq', if_neg hq', upd_ne (Ne.symm hpn)]
  · rw [ptr_direct hq, ptr_direct hq]
    rfl

/-- Setting an entry of the indirect block. -/
lemma ptr_setEntry (he : e < NINDIRECT) (ha : a NDIRECT ≠ 0) (hr : r < 2 ^ 32)
    (hs : sect' (a NDIRECT) = (sect (a NDIRECT)).putLe (4 * e) 4 r) :
    ptr sect' a q = if q = NDIRECT + 1 + e then r else ptr sect a q := by
  split_ifs with hq
  · rw [hq, ptr_entry he ha, hs, Bytes.le_putLe_same]
    exact Nat.mod_eq_of_lt hr
  · unfold ptr
    split_ifs with h1 h2
    · rfl
    · rw [hs, Bytes.le_putLe_of_disjoint (by omega)]
    · rfl

lemma ptr_posOf_direct {bn : Nat} (h : bn < NDIRECT) : ptr sect a (posOf bn) = a bn := by
  rw [posOf, if_pos h, ptr_direct (Nat.le_of_lt h)]

lemma posOf_indirect {bn : Nat} (h : ¬ bn < NDIRECT) : posOf bn = NDIRECT + 1 + (bn - NDIRECT) := by
  rw [posOf, if_neg h]
  omega

lemma posOf_ne_indirect (bn : Nat) : posOf bn ≠ NDIRECT := by
  unfold posOf
  split_ifs <;> omega

lemma posOf_inj {bn bn' : Nat} (h : posOf bn = posOf bn') : bn = bn' := by
  unfold posOf at h
  split_ifs at h <;> omega

end Ptr

/-! ### The block tree of a cached inode -/

/-- Block `b` is a data block in use. -/
def Data (sect : Nat → Bytes) (b : Nat) : Prop :=
  DATASTART ≤ b ∧ b < LOGSTART ∧ used sect b = true

/-- The pointers of all inodes, where `A i` are the addresses of inode `i`. -/
def ptrs (sect : Nat → Bytes) (A : Nat → Nat → Nat) (x : Nat × Nat) : Nat := ptr sect (A x.1) x.2

/-- No block belongs to two inodes or to two places of one inode, where slot `k` of the cache holds
the addresses of inode `i` and `A` those of the others. -/
structure Tree (A : Nat → Nat → Nat) (i k : Nat) (s : State) : Prop where
  volume : Volume s
  ptrs : Pointers (ptrs s.sector (upd A i (s.inode k).addrs)) (Data s.sector)

/-- The tables in memory are those of `s`, but for the addresses in slot `k`. -/
structure Beside (k : Nat) (s s' : State) : Prop where
  disksize : s'.disksize = s.disksize
  inode : s'.inode = upd s.inode k { s.inode k with addrs := (s'.inode k).addrs }
  file : s'.file = s.file
  proc : s'.proc = s.proc
  input : s'.input = s.input
  busy : s'.log.busy = s.log.busy
  subset : s.log.lh ⊆ s'.log.lh

/-- No block is given back, and the inode in slot `k` has kept its blocks. Others that it has now
were free. -/
structure Gains (k : Nat) (s s' : State) : Prop extends Beside k s s' where
  marks : ∀ b < FSSIZE, used s.sector b = true → used s'.sector b = true
  keep : ∀ q, ptr s.sector (s.inode k).addrs q ≠ 0 →
    ptr s'.sector (s'.inode k).addrs q = ptr s.sector (s.inode k).addrs q
  fresh : ∀ q, ptr s.sector (s.inode k).addrs q = 0 →
    ptr s'.sector (s'.inode k).addrs q ≠ 0 →
    ptr s'.sector (s'.inode k).addrs q < LOGSTART ∧
      used s.sector (ptr s'.sector (s'.inode k).addrs q) = false

/-- `s'` is `s` after blocks were added to the inode in slot `k`. -/
structure Grow (k : Nat) (s s' : State) : Prop extends Gains k s s' where
  sector : ∀ c < LOGSTART, used s.sector c = true → ¬ IsBitmap c →
    c ≠ (s.inode k).addrs NDIRECT → s'.sector c = s.sector c

/-- Log entries that the indirect block of slot `k` may still take. -/
def indCost (s : State) (k : Nat) : Nat :=
  if (s.inode k).addrs NDIRECT = 0 then 2
  else if (s.inode k).addrs NDIRECT ∈ s.log.lh then 0 else 1

lemma indCost_mono {s s' : State} {k : Nat}
    (ha : (s'.inode k).addrs NDIRECT = (s.inode k).addrs NDIRECT) (hlh : s.log.lh ⊆ s'.log.lh) :
    indCost s' k ≤ indCost s k := by
  unfold indCost
  rw [ha]
  by_cases h1 : (s.inode k).addrs NDIRECT ∈ s.log.lh
  · rw [if_pos h1, if_pos (hlh h1)]
  · rw [if_neg h1]
    split_ifs <;> omega

section Tree

variable {A : Nat → Nat → Nat} {i k p e r : Nat} {s s' s'' : State}

lemma Data.not_bitmap {sect : Nat → Bytes} {b : Nat} (h : Data sect b) : ¬ IsBitmap b :=
  fun hb => absurd hb.2 (Nat.not_lt.mpr h.1)

lemma Data.ne_one {sect : Nat → Bytes} {b : Nat} (h : Data sect b) : b ≠ 1 :=
  fun e => absurd (e ▸ h.1) (by decide)

lemma Data.ne_zero {sect : Nat → Bytes} {b : Nat} (h : Data sect b) : b ≠ 0 :=
  fun e => absurd (e ▸ h.1) (by decide)

lemma Data.lt_size {sect : Nat → Bytes} {b : Nat} (h : Data sect b) : b < FSSIZE :=
  h.2.1.trans (by decide)

/-- A pointer of the inode in slot `k` leads to a data block. -/
lemma Tree.own (h : Tree A i k s) {q : Nat} (hq : ptr s.sector (s.inode k).addrs q ≠ 0) :
    Data s.sector (ptr s.sector (s.inode k).addrs q) := by
  have := h.ptrs.valid (i, q)
  simp only [Xv6.ptrs, upd_same] at this
  exact this hq

lemma Tree.indirect (h : Tree A i k s) (ha : (s.inode k).addrs NDIRECT ≠ 0) :
    Data s.sector ((s.inode k).addrs NDIRECT) := by
  have := h.own (q := NDIRECT)
  rw [ptr_direct le_rfl] at this
  exact this ha

lemma Tree.other (h : Tree A i k s) {j q : Nat} (hj : j ≠ i) (hq : ptr s.sector (A j) q ≠ 0) :
    Data s.sector (ptr s.sector (A j) q) := by
  have := h.ptrs.valid (j, q)
  simp only [Xv6.ptrs, upd_ne hj] at this
  exact this hq

/-- No pointer of another inode leads to a block of the inode in slot `k`. -/
lemma Tree.other_ne (h : Tree A i k s) {j q p : Nat} (hj : j ≠ i)
    (hq : ptr s.sector (A j) q ≠ 0) : ptr s.sector (A j) q ≠ ptr s.sector (s.inode k).addrs p := by
  intro heq
  have := h.ptrs.inj (j, q) (i, p)
  simp only [Xv6.ptrs, upd_ne hj, upd_same] at this
  exact hj (congrArg Prod.fst (this hq heq))

/-- Two pointers of the inode in slot `k` never lead to the same block. -/
lemma Tree.own_inj (h : Tree A i k s) {q p : Nat} (hq : ptr s.sector (s.inode k).addrs q ≠ 0)
    (heq : ptr s.sector (s.inode k).addrs q = ptr s.sector (s.inode k).addrs p) : q = p := by
  have := h.ptrs.inj (i, q) (i, p)
  simp only [Xv6.ptrs, upd_same] at this
  exact congrArg Prod.snd (this hq heq)

lemma Beside.refl (k : Nat) (s : State) : Beside k s s :=
  ⟨rfl, (upd_eq_self _ _).symm, rfl, rfl, rfl, rfl, List.Subset.refl _⟩

lemma Beside.slot (h : Beside k s s') :
    s'.inode k = { s.inode k with addrs := (s'.inode k).addrs } := by
  conv_lhs => rw [h.inode]
  exact upd_same ..

lemma Beside.trans (h : Beside k s s') (h' : Beside k s' s'') : Beside k s s'' where
  disksize := h'.disksize.trans h.disksize
  inode := by
    rw [h'.inode, h.slot, h.inode]
    simp
  file := h'.file.trans h.file
  proc := h'.proc.trans h.proc
  input := h'.input.trans h.input
  busy := h'.busy.trans h.busy
  subset := List.Subset.trans h.subset h'.subset

lemma Gains.trans (h : Gains k s s') (h' : Gains k s' s'') : Gains k s s'' where
  toBeside := h.toBeside.trans h'.toBeside
  marks b hb hu := h'.marks b hb (h.marks b hb hu)
  keep q hq := by
    rw [h'.keep q (by rwa [h.keep q hq]), h.keep q hq]
  fresh q hq hq'' := by
    by_cases hq' : ptr s'.sector (s'.inode k).addrs q = 0
    · obtain ⟨hlt, hfree⟩ := h'.fresh q hq' hq''
      refine ⟨hlt, ?_⟩
      by_contra hu
      rw [h.marks _ (hlt.trans (by decide)) (by simpa using hu)] at hfree
      exact Bool.noConfusion hfree
    · rw [h'.keep q hq']
      exact h.fresh q hq hq'

lemma Grow.refl (k : Nat) (s : State) : Grow k s s :=
  ⟨⟨.refl k s, fun _ _ h => h, fun _ _ => rfl, fun _ h h' => absurd h h'⟩, fun _ _ _ _ _ => rfl⟩

/-- The indirect block, once there is one, stays; a new one was free before. -/
lemma Grow.indirect (h : Grow k s s') :
    (s'.inode k).addrs NDIRECT = (s.inode k).addrs NDIRECT ∨
      (s'.inode k).addrs NDIRECT ≠ 0 ∧
      used s.sector ((s'.inode k).addrs NDIRECT) = false := by
  have h1 := h.keep NDIRECT
  have h2 := h.fresh NDIRECT
  rw [ptr_direct le_rfl, ptr_direct le_rfl] at h1 h2
  by_cases h0 : (s.inode k).addrs NDIRECT = 0
  · by_cases h0' : (s'.inode k).addrs NDIRECT = 0
    · exact .inl (h0'.trans h0.symm)
    · exact .inr ⟨h0', (h2 h0 h0').2⟩
  · exact .inl (h1 h0)

lemma Grow.trans (h : Grow k s s') (h' : Grow k s' s'') : Grow k s s'' where
  toGains := h.toGains.trans h'.toGains
  sector c hc hu hnb hne := by
    rw [h'.sector c hc (h.marks c (hc.trans (by decide)) hu) hnb ?_, h.sector c hc hu hnb hne]
    rcases h.indirect with heq | ⟨-, hfree⟩
    · rwa [heq]
    · rintro rfl
      rw [hfree] at hu
      exact Bool.noConfusion hu

/-! ### Adding a block -/

/-- `s'` is `s` after the missing block at pointer `p` of the inode in slot `k` was allocated as
block `r`. -/
structure Added (A : Nat → Nat → Nat) (i k p : Nat) (s : State) (r : Nat) (s' : State) : Prop where
  tree : Tree A i k s'
  grow : Grow k s s'
  missing : ptr s.sector (s.inode k).addrs p = 0
  found : ptr s'.sector (s'.inode k).addrs p = r
  only : ∀ q, q ≠ p → ptr s'.sector (s'.inode k).addrs q = ptr s.sector (s.inode k).addrs q
  ne_zero : r ≠ 0
  card : (freeBlocks s'.sector).card + 1 = (freeBlocks s.sector).card
  length : s'.log.lh.length + indCost s' k ≤
    s.log.lh.length + indCost s k + if p = NDIRECT then 0 else 2
  mem : r ∈ s'.log.lh

section Took

variable {c : Nat}

lemma Took.ne (h : Took s r s') (hu : used s.sector c = true) : c ≠ r := by
  rintro rfl
  rw [h.free] at hu
  exact Bool.noConfusion hu

lemma Took.sector_data (h : Took s r s') (hc : Data s.sector c) : s'.sector c = s.sector c :=
  h.sector c hc.2.1 (h.ne hc.2.2) hc.not_bitmap

lemma Took.marks (h : Took s r s') (hc : c < FSSIZE) (hu : used s.sector c = true) :
    used s'.sector c = true := by
  rw [h.used_eq c hc, hu, ite_self]

lemma Took.data (h : Took s r s') (hc : Data s.sector c) : Data s'.sector c :=
  ⟨hc.1, hc.2.1, h.marks hc.lt_size hc.2.2⟩

lemma Took.data_new (h : Took s r s') : Data s'.sector r := by
  refine ⟨h.lo, h.hi, ?_⟩
  rw [h.used_eq r (h.hi.trans (by decide)), if_pos rfl]

lemma Took.not_data (h : Took s r s') : ¬ Data s.sector r := fun hd => h.ne hd.2.2 rfl

end Took

/-- The pointers of the other inodes do not change with the blocks they do not use. -/
lemma Tree.ptr_other (h : Tree A i k s) {sect' : Nat → Bytes} {j q : Nat} (hj : j ≠ i)
    (hs : ∀ c, Data s.sector c → c ≠ (s.inode k).addrs NDIRECT → sect' c = s.sector c) :
    ptr sect' (A j) q = ptr s.sector (A j) q := by
  refine ptr_congr (fun _ _ => rfl) fun h0 => ?_
  have hq : ptr s.sector (A j) NDIRECT ≠ 0 := by rwa [ptr_direct le_rfl]
  have hd := h.other hj hq
  have hne := h.other_ne (p := NDIRECT) hj hq
  rw [ptr_direct le_rfl] at hd hne
  rw [ptr_direct le_rfl] at hne
  exact hs _ hd hne

/-- Allocating the block of an address. -/
lemma Tree.added_addr (h : Tree A i k s) (hp : p ≤ NDIRECT) (h0 : (s.inode k).addrs p = 0)
    (ht : Took s r s') : Added A i k p s r { s' with inode := addrsSet s'.inode k p r } := by
  set a := (s.inode k).addrs with ha
  have hinode : addrsSet s'.inode k p r = upd s.inode k { s.inode k with addrs := upd a p r } := by
    rw [addrsSet_of_lt _ _ (by omega), ht.disk.inode]
  have hk : (addrsSet s'.inode k p r k).addrs = upd a p r := by rw [hinode, upd_same]
  have hptr : ∀ q, ptr s'.sector (upd a p r) q = if q = p then r else ptr s.sector a q := fun q =>
    ptr_setAddr hp h0 (fun hi => ht.sector_data (h.indirect hi)) fun _ => ht.zeroed
  have hother : ∀ j q, j ≠ i → ptr s'.sector (A j) q = ptr s.sector (A j) q := fun j q hj =>
    h.ptr_other hj fun c hc _ => ht.sector_data hc
  have hne : r ≠ 0 := ht.data_new.ne_zero
  refine ⟨⟨?_, ?_⟩, ⟨⟨⟨ht.disk.disksize, ?_, ht.disk.file, ht.disk.proc, ht.disk.input,
    ht.disk.busy, ht.disk.subset⟩, fun b hb hu => ht.marks hb hu, fun q hq => ?_,
    fun q hq hq' => ?_⟩, fun c hc hu hnb _ => ht.sector c hc (ht.ne hu) hnb⟩, ?_, ?_,
    fun q hq => ?_, hne, ht.card_freeBlocks, ?_, ht.mem⟩
  · exact ht.volume.congr rfl rfl rfl rfl rfl
  · refine h.ptrs.add (x := (i, p)) (r := r) (fun y => ?_) ht.not_data (fun b hb => ht.data hb)
      ht.data_new
    obtain ⟨j, q⟩ := y
    simp only [Xv6.ptrs, hk, Prod.mk.injEq]
    by_cases hj : j = i
    · subst hj
      rw [upd_same, upd_same, hptr]
      simp only [true_and]
      rfl
    · rw [upd_ne hj, upd_ne hj, hother j q hj, if_neg fun e => hj e.1]
  · change addrsSet s'.inode k p r = _
    rw [hk, hinode]
  · change ptr s'.sector (addrsSet s'.inode k p r k).addrs q = _
    rw [hk, hptr, if_neg]
    rintro rfl
    rw [ptr_direct hp] at hq
    exact hq h0
  · change ptr s'.sector (addrsSet s'.inode k p r k).addrs q ≠ 0 at hq'
    change ptr s'.sector (addrsSet s'.inode k p r k).addrs q < LOGSTART ∧ used s.sector
      (ptr s'.sector (addrsSet s'.inode k p r k).addrs q) = false
    rw [hk, hptr] at hq' ⊢
    split_ifs at hq' ⊢ with hqp
    exacts [⟨ht.hi, ht.free⟩, absurd hq hq']
  · rw [ptr_direct hp]
    exact h0
  · change ptr s'.sector (addrsSet s'.inode k p r k).addrs p = r
    rw [hk, hptr, if_pos rfl]
  · change ptr s'.sector (addrsSet s'.inode k p r k).addrs q = _
    rw [hk, hptr, if_neg hq]
  · have hlen := ht.length
    have hcost : indCost { s' with inode := addrsSet s'.inode k p r } k ≤
        indCost s k - if p = NDIRECT then 2 else 0 := by
      by_cases hpn : p = NDIRECT
      · simp only [indCost, hk]
        rw [if_pos hpn, hpn, upd_same, if_neg hne, if_pos ht.mem]
        exact Nat.zero_le _
      · rw [if_neg hpn]
        refine indCost_mono ?_ ht.disk.subset
        exact (congrFun hk NDIRECT).trans (upd_ne (Ne.symm hpn))
    have hcost2 : p = NDIRECT → indCost s k = 2 := by
      rintro rfl
      rw [indCost, if_pos h0]
    change s'.log.lh.length + indCost { s' with inode := addrsSet s'.inode k p r } k ≤ _
    split_ifs at hcost ⊢ with hpn
    · have := hcost2 hpn
      omega
    · omega

/-- Allocating the block of an entry of the indirect block. -/
lemma Tree.added_entry (h : Tree A i k s) (he : e < NINDIRECT) (hi : (s.inode k).addrs NDIRECT ≠ 0)
    (h0 : (s.sector ((s.inode k).addrs NDIRECT)).le (4 * e) 4 = 0) (ht : Took s r s')
    (hlen : s'.log.lh.length < LOGCAP) :
    Added A i k (NDIRECT + 1 + e) s r (s'.logged ((s.inode k).addrs NDIRECT)
      ((s.sector ((s.inode k).addrs NDIRECT)).putLe (4 * e) 4 r)) := by
  set a := (s.inode k).addrs with ha
  set bp := (s.sector (a NDIRECT)).putLe (4 * e) 4 r with hbp
  have hind : Data s.sector (a NDIRECT) := h.indirect hi
  have hinode : (s'.logged (a NDIRECT) bp).inode = s.inode := ht.disk.inode
  have hk : ((s'.logged (a NDIRECT) bp).inode k).addrs = a := by rw [hinode]
  obtain ⟨hvol, hused⟩ : Volume (s'.logged (a NDIRECT) bp) ∧ _ :=
    ht.volume.logged hind.2.1 hind.ne_one hind.not_bitmap hlen
  have hsect : ∀ c < LOGSTART, c ≠ a NDIRECT →
      (s'.logged (a NDIRECT) bp).sector c = s'.sector c := fun c hc hne =>
    ht.volume.sector_logged_ne hc hne
  have hr : r < 2 ^ 32 := ht.hi.trans (by decide)
  have hptr : ∀ q, ptr (s'.logged (a NDIRECT) bp).sector a q =
      if q = NDIRECT + 1 + e then r else ptr s.sector a q := fun q =>
    ptr_setEntry he hi hr (ht.volume.sector_logged_same hind.2.1)
  have hother : ∀ j q, j ≠ i → ptr (s'.logged (a NDIRECT) bp).sector (A j) q =
      ptr s.sector (A j) q := fun j q hj =>
    h.ptr_other hj fun c hc hne => (hsect c hc.2.1 hne).trans (ht.sector_data hc)
  have hdata : ∀ b, Data s'.sector b → Data (s'.logged (a NDIRECT) bp).sector b :=
    fun b hb => ⟨hb.1, hb.2.1, (hused b hb.lt_size).trans hb.2.2⟩
  have hmiss : ptr s.sector a (NDIRECT + 1 + e) = 0 := by rw [ptr_entry he hi]; exact h0
  refine ⟨⟨hvol, ?_⟩, ⟨⟨⟨ht.disk.disksize, ?_, ht.disk.file, ht.disk.proc, ht.disk.input,
    ht.disk.busy, ?_⟩, fun b hb hu => ?_, fun q hq => ?_, fun q hq hq' => ?_⟩,
    fun c hc hu hnb hne => ?_⟩, hmiss, ?_, fun q hq => ?_, ht.data_new.ne_zero, ?_, ?_,
    mem_logged_lh.mpr (.inr ht.mem)⟩
  · refine h.ptrs.add (x := (i, NDIRECT + 1 + e)) (r := r) (fun y => ?_) ht.not_data
      (fun b hb => hdata b (ht.data hb)) (hdata r ht.data_new)
    obtain ⟨j, q⟩ := y
    simp only [Xv6.ptrs, hk, Prod.mk.injEq]
    by_cases hj : j = i
    · subst hj
      rw [upd_same, hptr]
      simp only [true_and]
    · rw [upd_ne hj, hother j q hj, if_neg fun e => hj e.1]
  · rw [hk, hinode]
    exact (upd_eq_self _ _).symm
  · exact List.Subset.trans ht.disk.subset fun c hc => mem_logged_lh.mpr (.inr hc)
  · exact (hused b hb).trans (ht.marks hb hu)
  · rw [hk, hptr, if_neg]
    rintro rfl
    exact hq hmiss
  · rw [hk, hptr] at hq' ⊢
    split_ifs at hq' ⊢ with hqp
    exacts [⟨ht.hi, ht.free⟩, absurd hq hq']
  · exact (hsect c hc hne).trans (ht.sector c hc (ht.ne hu) hnb)
  · rw [hk, hptr, if_pos rfl]
  · rw [hk, hptr, if_neg hq]
  · rw [freeBlocks_congr hused]
    exact ht.card_freeBlocks
  · have hlen2 := ht.length
    have hcost : indCost (s'.logged (a NDIRECT) bp) k = 0 := by
      simp only [indCost, hk]
      rw [if_neg hi, if_pos (mem_logged_lh.mpr (.inl rfl))]
    rw [hcost, if_neg (by omega), indCost, if_neg hi]
    split_ifs with hm
    · rw [logged_length_of_mem (ht.disk.subset hm)]
      omega
    · have : (s'.logged (a NDIRECT) bp).log.lh.length ≤ _ := logged_length_le
      omega

end Tree

/-! ### `bmap` -/

section Bmap

variable {A : Nat → Nat → Nat} {i k p e bn : Nat} {s : State} {Q : Nat → State → Prop}
  {E : Option Panic → State → Prop}

lemma wp_setAddr {β : Type} {v : Nat} {g : Unit → K β} {Q : β → State → Prop} :
    (setAddr k p v >>= g).wp Q E s ↔
      (g ()).wp Q E { s with inode := addrsSet s.inode k p v } := Iff.rfl

lemma wp_bmapTest {β : Type} {addr : Nat} {g : Unit → K β} {Q : β → State → Prop} :
    (bmapTest addr >>= g).wp Q E s ↔ (g ()).wp Q E s := Iff.rfl

/-- Looking up an address, and allocating the block if it is missing. -/
lemma wp_bmapAddr (h : Tree A i k s) (hd : (s.inode k).dev = ROOTDEV) (hp : p ≤ NDIRECT)
    (hfree : (s.inode k).addrs p = 0 → (freeBlocks s.sector).Nonempty)
    (hE : Room s 2 ∨ ∀ e s', E e s')
    (hfound : (s.inode k).addrs p ≠ 0 → Q ((s.inode k).addrs p) s)
    (hnew : ∀ r s', Added A i k p s r s' → Q r s') : (bmapAddr k p).wp Q E s := by
  unfold bmapAddr
  rw [wp_read, wp_read, wp_bmapTest, addrsGet_of_lt (by omega), hd]
  split_ifs with h0
  · refine wp_bind.mpr (wp_balloc h.volume (hfree h0) hE fun r s' ht _ => ?_)
    rw [wp_setAddr, wp_pure]
    exact hnew r _ (h.added_addr hp h0 ht)
  · exact hfound h0

/-- Looking up an entry of the indirect block, and allocating the block if it is missing. -/
lemma wp_bmapEntry (h : Tree A i k s) (he : e < NINDIRECT) (hi : (s.inode k).addrs NDIRECT ≠ 0)
    (hfree : (s.sector ((s.inode k).addrs NDIRECT)).le (4 * e) 4 = 0 →
      (freeBlocks s.sector).Nonempty)
    (hE : Room s 3 ∨ ∀ e s', E e s')
    (hfound : (s.sector ((s.inode k).addrs NDIRECT)).le (4 * e) 4 ≠ 0 →
      Q ((s.sector ((s.inode k).addrs NDIRECT)).le (4 * e) 4) s)
    (hnew : ∀ r s', Added A i k (NDIRECT + 1 + e) s r s' → Q r s') :
    (bmapEntry ROOTDEV ((s.inode k).addrs NDIRECT) e).wp Q E s := by
  refine wp_bread h.volume.toLayout (h.indirect hi).lt_size ?_
  rw [wp_bmapTest]
  split_ifs with h0
  · refine wp_bind.mpr (wp_balloc h.volume (hfree h0) (hE.imp_left fun hr => hr.mono (by omega))
      fun r s' ht _ => ?_)
    refine wp_bind.mpr (wp_logWrite ht.volume.toLayout
      (hE.imp_left fun hr => ht.room hr) fun _ hlen => ?_)
    rw [wp_pure]
    exact hnew r _ (h.added_entry he hi h0 ht hlen)
  · exact hfound h0

/-- Blocks that the indirect block of slot `k` may still take. -/
def indMissing (s : State) (k : Nat) : Nat := if (s.inode k).addrs NDIRECT = 0 then 1 else 0

/-- `s'` is `s` after `bmap` has allocated the missing block `bn` of the inode in slot `k` as block
`r`, and the indirect block if it was missing too. -/
structure Extended (A : Nat → Nat → Nat) (i k bn : Nat) (s : State) (r : Nat) (s' : State) :
    Prop where
  tree : Tree A i k s'
  grow : Grow k s s'
  missing : ptr s.sector (s.inode k).addrs (posOf bn) = 0
  found : ptr s'.sector (s'.inode k).addrs (posOf bn) = r
  ne_zero : r ≠ 0
  card : (freeBlocks s.sector).card + indMissing s' k ≤
    (freeBlocks s'.sector).card + 1 + indMissing s k
  length : s'.log.lh.length + indCost s' k ≤ s.log.lh.length + indCost s k + 2
  mem : r ∈ s'.log.lh

lemma Added.indMissing_le {r : Nat} {s' : State} (h : Added A i k p s r s') :
    indMissing s' k ≤ indMissing s k := by
  have hkeep := h.grow.keep NDIRECT
  rw [ptr_direct le_rfl, ptr_direct le_rfl] at hkeep
  unfold indMissing
  split_ifs with h1 h2 h2
  · exact le_rfl
  · exact absurd h1 (by rw [hkeep h2]; exact h2)
  · exact Nat.zero_le _
  · exact le_rfl

lemma Added.extended {r : Nat} {s' : State} (h : Added A i k (posOf bn) s r s') :
    Extended A i k bn s r s' := by
  refine ⟨h.tree, h.grow, h.missing, h.found, h.ne_zero, ?_, ?_, h.mem⟩
  · have := h.card
    have := h.indMissing_le
    omega
  · have := h.length
    rwa [if_neg (posOf_ne_indirect bn)] at this

/-- First the indirect block, then the block itself. -/
lemma Added.extended_trans {r c : Nat} {s' s'' : State} (h : Added A i k NDIRECT s c s')
    (h' : Added A i k (posOf bn) s' r s'') (hbn : ¬ bn < NDIRECT) : Extended A i k bn s r s'' := by
  have hmiss := h.missing
  rw [ptr_direct le_rfl] at hmiss
  have hfound := h.found
  rw [ptr_direct le_rfl] at hfound
  refine ⟨h'.tree, h.grow.trans h'.grow, ?_, h'.found, h'.ne_zero, ?_, ?_, h'.mem⟩
  · rw [posOf_indirect hbn]
    exact ptr_of_no_indirect (by omega) hmiss
  · have h1 := h.card
    have h2 := h'.card
    have h3 := h'.indMissing_le
    have h4 : indMissing s k = 1 := if_pos hmiss
    have h5 : indMissing s' k = 0 := if_neg (by rw [hfound]; exact h.ne_zero)
    omega
  · have h1 := h.length
    have h2 := h'.length
    rw [if_pos rfl] at h1
    rw [if_neg (posOf_ne_indirect bn)] at h2
    omega

lemma Added.room {r n : Nat} {s' : State} (h : Added A i k NDIRECT s r s')
    (hr : Room s (indCost s k + n)) : Room s' (indCost s' k + n) := by
  refine ⟨h.grow.busy.trans hr.1, ?_⟩
  have h1 := h.length
  have h2 := hr.2
  rw [if_pos rfl] at h1
  omega

/-- `bmap` of a block that needs no double indirection finds it, or allocates it. -/
lemma wp_bmap (h : Tree A i k s) (hd : (s.inode k).dev = ROOTDEV) (hbn : bn < SMALLFILE)
    (hfree : ptr s.sector (s.inode k).addrs (posOf bn) = 0 →
      1 + indMissing s k ≤ (freeBlocks s.sector).card)
    (hE : Room s (indCost s k + 3) ∨ ∀ e s', E e s')
    (hfound : ptr s.sector (s.inode k).addrs (posOf bn) ≠ 0 →
      Q (ptr s.sector (s.inode k).addrs (posOf bn)) s)
    (hnew : ∀ r s', Extended A i k bn s r s' → Q r s') : (bmap k bn).wp Q E s := by
  unfold bmap
  generalize NINDIRECT * NINDIRECT = n
  rw [wp_read, hd]
  split_ifs with h1 h2
  · -- a direct block
    rw [ptr_posOf_direct h1] at hfree hfound
    refine wp_bmapAddr h hd (Nat.le_of_lt h1) (fun h0 => ?_)
      (hE.imp_left fun hr => hr.mono (by omega)) hfound fun r s' ha => hnew r s' ?_
    · exact Finset.card_pos.mp (by have := hfree h0; omega)
    · refine Added.extended ?_
      rwa [posOf, if_pos h1]
  · -- an entry of the indirect block
    have hpos := posOf_indirect h1
    refine wp_bind.mpr (wp_bmapAddr h hd le_rfl (fun h0 => ?_)
      (hE.imp_left fun hr => hr.mono (by omega)) (fun hi => ?_) fun c s' ha => ?_)
    · have := hfree (by rw [hpos]; exact ptr_of_no_indirect (by omega) h0)
      exact Finset.card_pos.mp (by omega)
    · rw [hpos, ptr_entry h2 hi] at hfree hfound
      refine wp_bmapEntry h h2 hi (fun h0 => ?_) (hE.imp_left fun hr => hr.mono (by omega))
        hfound fun r s' ha => hnew r s' ?_
      · exact Finset.card_pos.mp (by have := hfree h0; omega)
      · refine Added.extended ?_
        rwa [hpos]
    · have hc := ha.found
      have hmiss := ha.missing
      rw [ptr_direct le_rfl] at hc hmiss
      have hi : (s'.inode k).addrs NDIRECT ≠ 0 := by rw [hc]; exact ha.ne_zero
      rw [← hc]
      refine wp_bmapEntry ha.tree h2 hi (fun _ => ?_)
        (hE.imp_left fun hr => (ha.room hr).mono (by omega)) (fun hne => ?_)
        fun r s'' ha' => hnew r s'' ?_
      · have h3 := hfree (by rw [hpos]; exact ptr_of_no_indirect (by omega) hmiss)
        have h4 := ha.card
        rw [indMissing, if_pos hmiss] at h3
        exact Finset.card_pos.mp (by omega)
      · rw [← ptr_entry h2 hi, ha.only _ (by omega), ptr_of_no_indirect (by omega) hmiss] at hne
        exact absurd rfl hne
      · refine ha.extended_trans ?_ h1
        rwa [hpos]
  all_goals
    unfold SMALLFILE at hbn
    omega

end Bmap

end Xv6
