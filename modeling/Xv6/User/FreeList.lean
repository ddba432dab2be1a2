import Xv6.User.Umalloc
import Xv6.Lib.Blocks
import Mathlib.Data.List.Chain

/-!
# The free list of the user heap

The free list goes from `base` through the free blocks in the order of their addresses and back to
`base`, with a gap between any two of them. `free` ends and keeps it so.
-/

namespace Xv6.User.Heap

open Lib List

/-! ### Lists that a pointer leads through -/

/-- The relation of a block to the one that it points to. -/
abbrev Next (s : Heap) (x y : Nat) : Prop := s.ptr x = y

/-- Block `y` comes after the end of block `x`, and not right there. -/
abbrev Gap (s : Heap) (x y : Nat) : Prop := x + HEADER * s.size x < y

/-- The last place of a chain may change in what comes after it. -/
lemma isChain_concat_congr {R R' : Nat → Nat → Prop} {l : List Nat} {p : Nat}
    (h : (l ++ [p]).IsChain R) (hR : ∀ x ∈ l, ∀ y, R x y → R' x y) : (l ++ [p]).IsChain R' := by
  induction l with
  | nil => simp
  | cons x l ih =>
    rw [cons_append, isChain_cons] at h ⊢
    exact ⟨fun y hy => hR x (by simp) y (h.1 y hy), ih h.2 fun z hz => hR z (by simp [hz])⟩

lemma isChain_frame {R R' : Nat → Nat → Prop} {l : List Nat} (h : l.IsChain R)
    (hR : ∀ x ∈ l, ∀ y, R x y → R' x y) : l.IsChain R' :=
  h.imp_of_mem_imp fun x y hx _ hxy => hR x hx y hxy

lemma isChain_next_cons {s : Heap} {x base : Nat} {B : List Nat} (hx : s.ptr x = B.headD base)
    (h : (B ++ [base]).IsChain s.Next) : (x :: B ++ [base]).IsChain s.Next := by
  rw [cons_append, isChain_cons]
  refine ⟨?_, h⟩
  intro y hy
  cases B with
  | nil =>
    obtain rfl := Option.some.inj hy
    exact hx
  | cons z B =>
    obtain rfl := Option.some.inj hy
    exact hx

/-- The state of the heap: `F` are the blocks of the free list and `O` the other ones. -/
structure Ok (base : Nat) (s : Heap) (F O : List Nat) : Prop where
  pos : 0 < base
  ring : (base :: F ++ [base]).IsChain s.Next
  gaps : (base :: F).IsChain s.Gap
  base_size : s.size base = 0
  freep : s.freep ∈ base :: F
  blocks : Blocks HEADER s.memory s.size (F ++ O)
  bounds : ∀ r ∈ s.memory, base + HEADER ≤ r.1 ∧ r.1 + HEADER * r.2 < 2 ^ 32

section

variable {base : Nat} {s s' : Heap} {F F1 F2 O L B : List Nat} {x y p bp : Nat}

lemma header_pos : 0 < HEADER := by decide

/-- A list with gaps is in the order of the addresses. -/
lemma sorted_of_gaps {l : List Nat} (h : l.IsChain s.Gap) : l.Pairwise (· < ·) := by
  have hlt : l.IsChain (· < ·) := h.imp fun x y hxy => (Nat.le_add_right _ _).trans_lt hxy
  exact hlt.pairwise

namespace Ok

lemma bounds_of_mem (h : Ok base s F O) (hx : x ∈ F ++ O) :
    base + HEADER ≤ x ∧ x + HEADER * s.size x < 2 ^ 32 :=
  h.blocks.bounds header_pos h.bounds hx

lemma sorted (h : Ok base s F O) : (base :: F).Pairwise (· < ·) := sorted_of_gaps h.gaps

/-- What a block of the list points to. -/
lemma ptr_eq (h : Ok base s F O) (hl : base :: F = L ++ x :: B) : s.ptr x = B.headD base := by
  have hring := h.ring
  rw [hl, append_assoc] at hring
  have hx := hring.right_of_append
  cases B with
  | nil => exact (isChain_cons_cons.mp hx).1
  | cons y B => exact (isChain_cons_cons.mp hx).1

lemma congr (h : Ok base s F O) (hptr : ∀ x ∈ base :: F, s'.ptr x = s.ptr x)
    (hsize : ∀ x ∈ base :: (F ++ O), s'.size x = s.size x) (hfreep : s'.freep = s.freep)
    (hmem : s'.memory = s.memory) : Ok base s' F O where
  pos := h.pos
  ring := by
    apply isChain_concat_congr h.ring
    intro x hx y hxy
    exact (hptr x hx).trans hxy
  gaps := by
    apply isChain_frame h.gaps
    intro x hx y hxy
    rwa [Gap, hsize x (by rw [mem_cons] at hx ⊢; simp only [mem_append]; tauto)]
  base_size := (hsize base (by simp)).trans h.base_size
  freep := hfreep ▸ h.freep
  blocks := hmem ▸ h.blocks.congr fun x hx => hsize x (mem_cons_of_mem base hx)
  bounds := hmem ▸ h.bounds

lemma freep_ne_zero (h : Ok base s F O) : s.freep ≠ 0 := by
  have hpos := h.pos
  rcases mem_cons.mp h.freep with heq | hm
  · omega
  · have := (h.bounds_of_mem (x := s.freep) (by simp [hm])).1
    omega

/-- The list, seen from one of its blocks. -/
lemma around (h : Ok base s F O) (hx : x ∈ base :: F) :
    ∃ R, (x :: R ++ [x]).IsChain s.Next ∧ (base :: F).Perm (x :: R) := by
  have hring := h.ring
  obtain ⟨L, B, hl⟩ := append_of_mem hx
  rw [hl] at hring ⊢
  refine ⟨B ++ L, ?_, perm_append_comm⟩
  cases L with
  | nil =>
    obtain ⟨rfl, -⟩ := List.cons.inj hl
    simpa using hring
  | cons b L =>
    obtain ⟨rfl, -⟩ := List.cons.inj hl
    rw [append_assoc, cons_append, cons_append, isChain_cons_split] at hring
    simp only [cons_append, append_assoc]
    exact isChain_cons_split.mpr ⟨hring.2, hring.1⟩

end Ok

/-! ### `free` -/

/-- Where the loop of `free` stops. -/
def Stops (s : Heap) (bp x : Nat) : Prop :=
  (x < bp ∧ bp < s.ptr x) ∨ (s.ptr x ≤ x ∧ (x < bp ∨ bp < s.ptr x))

lemma freeLoop_of_stops {k : Nat} (h : s.Stops bp x) : s.freeLoop bp (k + 1) x = some x := by
  unfold freeLoop
  split_ifs with h1 h2
  · rfl
  · rfl
  · exact absurd h (by unfold Stops; tauto)

lemma freeLoop_of_not_stops {k : Nat} (h : ¬s.Stops bp x) :
    s.freeLoop bp (k + 1) x = s.freeLoop bp k (s.ptr x) := by
  unfold Stops at h
  rw [freeLoop, if_neg (by tauto), if_neg (by tauto)]

/-- More turns do not change the result. -/
lemma freeLoop_mono {k m : Nat} (h : s.freeLoop bp k x = some y) (hkm : k ≤ m) :
    s.freeLoop bp m x = some y := by
  induction k generalizing x m with
  | zero => cases h
  | succ k ih =>
    obtain ⟨m, rfl⟩ := Nat.exists_eq_succ_of_ne_zero (show m ≠ 0 by omega)
    by_cases hs : s.Stops bp x
    · rwa [freeLoop_of_stops hs] at h ⊢
    · rw [freeLoop_of_not_stops hs] at h ⊢
      exact ih h (by omega)

/-- On its way round the list the loop stops at `p`. -/
lemma exists_freeLoop_of_isChain {R : List Nat} (hchain : (x :: R).IsChain s.Next) (hp : p ∈ x :: R)
    (hstops : ∀ y ∈ x :: R, s.Stops bp y ↔ y = p) : ∃ k, s.freeLoop bp k x = some p := by
  induction R generalizing x with
  | nil =>
    obtain rfl := mem_singleton.mp hp
    exact ⟨1, freeLoop_of_stops ((hstops p (by simp)).mpr rfl)⟩
  | cons y R ih =>
    obtain ⟨hnext, hchain⟩ := isChain_cons_cons.mp hchain
    by_cases hxp : x = p
    · exact ⟨1, hxp ▸ freeLoop_of_stops ((hstops x (by simp)).mpr hxp)⟩
    · have hpy := (mem_cons.mp hp).resolve_left (Ne.symm hxp)
      obtain ⟨k, hk⟩ := ih hchain hpy fun z hz => hstops z (mem_cons_of_mem x hz)
      refine ⟨k + 1, ?_⟩
      rw [freeLoop_of_not_stops (mt (hstops x (by simp)).mp hxp), hnext]
      exact hk

/-- The free list has a block, or `base`, after which `bp` comes. -/
structure Place (base : Nat) (F F1 F2 L : List Nat) (p bp : Nat) : Prop where
  list : F = F1 ++ F2
  before : ∀ x ∈ base :: F1, x < bp
  after : ∀ x ∈ F2, bp < x
  last : base :: F1 = L ++ [p]

lemma exists_place (hsorted : F.Pairwise (· < ·)) (hbase : base < bp) (hbp : bp ∉ F) :
    ∃ F1 F2 L p, Place base F F1 F2 L p bp := by
  obtain ⟨F1, F2, hF, h1, h2⟩ : ∃ F1 F2, F = F1 ++ F2 ∧ (∀ x ∈ F1, x < bp) ∧ ∀ x ∈ F2, bp < x := by
    induction F with
    | nil => exact ⟨[], [], rfl, by simp, by simp⟩
    | cons a F ih =>
      obtain ⟨ha, hsorted⟩ := pairwise_cons.mp hsorted
      have hne : bp ≠ a := fun e => hbp (by simp [e])
      by_cases hlt : a < bp
      · obtain ⟨F1, F2, rfl, h1, h2⟩ := ih hsorted fun hm => hbp (by simp [hm])
        refine ⟨a :: F1, F2, rfl, ?_, h2⟩
        intro x hx
        rcases mem_cons.mp hx with rfl | hx
        · exact hlt
        · exact h1 x hx
      · refine ⟨[], a :: F, rfl, by simp, ?_⟩
        intro x hx
        rcases mem_cons.mp hx with rfl | hx
        · omega
        · have := ha x hx
          omega
  obtain ⟨L, p, hlast⟩ := (eq_nil_or_concat (base :: F1)).resolve_left (by simp)
  refine ⟨F1, F2, L, p, hF, ?_, h2, by rw [hlast, concat_eq_append]⟩
  intro x hx
  rcases mem_cons.mp hx with rfl | hx
  · exact hbase
  · exact h1 x hx

namespace Place

lemma list_eq (hp : Place base F F1 F2 L p bp) : base :: F = L ++ p :: F2 := by
  rw [hp.list, ← cons_append, hp.last, append_assoc]
  rfl

lemma lt (hp : Place base F F1 F2 L p bp) : p < bp := hp.before p (by rw [hp.last]; simp)

/-- The loop of `free` stops at `p` and nowhere else. -/
lemma stops_iff (hp : Place base F F1 F2 L p bp) (h : Ok base s F O) (hx : x ∈ base :: F) :
    s.Stops bp x ↔ x = p := by
  have hbase : base < bp := hp.before base (by simp)
  rw [hp.list_eq, mem_append, mem_cons] at hx
  rcases hx with hx | rfl | hx
  · -- a block before `p` points to one that is not after `bp`
    obtain ⟨L1, L2, rfl⟩ := append_of_mem hx
    have hl : base :: F = L1 ++ x :: (L2 ++ p :: F2) := by simp [hp.list_eq]
    have hptr := h.ptr_eq hl
    obtain ⟨y, hy, hle⟩ : ∃ y ∈ L2 ++ [p], (L2 ++ p :: F2).headD base = y := by
      cases L2 with
      | nil => exact ⟨p, by simp, rfl⟩
      | cons y L2 => exact ⟨y, by simp, rfl⟩
    have hyb : y < bp := by
      apply hp.before y
      rw [hp.last]
      simp only [mem_append, mem_cons] at hy ⊢
      tauto
    have hsorted := h.sorted
    rw [hl] at hsorted
    have hxs := (pairwise_cons.mp (pairwise_append.mp hsorted).2.1).1
    have hxy : x < y := hxs y (by simp only [mem_append, mem_cons] at hy ⊢; tauto)
    have hxp : x < p := hxs p (by simp)
    unfold Stops
    rw [hptr, hle]
    omega
  · have hptr := h.ptr_eq hp.list_eq
    have hlt := hp.lt
    refine iff_of_true ?_ rfl
    unfold Stops
    rw [hptr]
    cases hF : F2 with
    | nil =>
      have hle : base ≤ x := by
        have hsorted := h.sorted
        have hmem : x ∈ base :: F := by rw [hp.list_eq]; simp
        rcases mem_cons.mp hmem with rfl | hmem
        · exact Nat.le_refl _
        · exact ((pairwise_cons.mp hsorted).1 x hmem).le
      simp only [headD_nil]
      omega
    | cons q F3 =>
      have := hp.after q (by simp [hF])
      simp only [headD_cons]
      omega
  · obtain ⟨B1, B2, hB⟩ := append_of_mem hx
    have hl : base :: F = (L ++ p :: B1) ++ x :: B2 := by simp [hp.list_eq, hB]
    have hptr := h.ptr_eq hl
    have hgt := hp.after x hx
    have hlt := hp.lt
    unfold Stops
    rw [hptr]
    cases B2 with
    | nil =>
      simp only [headD_nil]
      omega
    | cons y B2 =>
      have hsorted := h.sorted
      rw [hl] at hsorted
      have hxy : x < y := (pairwise_cons.mp (pairwise_append.mp hsorted).2.1).1 y (by simp)
      simp only [headD_cons]
      omega

/-- The loop of `free` comes to `p` from any block. -/
lemma exists_freeLoop (hp : Place base F F1 F2 L p bp) (h : Ok base s F O) (hx : x ∈ base :: F) :
    ∃ k, s.freeLoop bp k x = some p := by
  obtain ⟨R, hchain, hperm⟩ := h.around hx
  refine exists_freeLoop_of_isChain hchain.left_of_append (hperm.mem_iff.mp ?_) fun y hy => ?_
  · rw [hp.list_eq]
    simp
  · exact hp.stops_iff h (hperm.mem_iff.mpr hy)

end Place

/-- Between the two joins of `free`: `bp` points to what comes after it, and `p` not yet to `bp`. -/
structure Mid (base : Nat) (s : Heap) (F1 F2 O : List Nat) (p bp : Nat) : Prop where
  pos : 0 < base
  left : (base :: F1).IsChain s.Next
  right : (bp :: F2 ++ [base]).IsChain s.Next
  gapsLeft : (base :: F1).IsChain s.Gap
  gapsRight : (bp :: F2).IsChain s.Gap
  below : p + HEADER * s.size p ≤ bp
  base_size : s.size base = 0
  blocks : Blocks HEADER s.memory s.size (bp :: (F1 ++ F2 ++ O))
  bounds : ∀ r ∈ s.memory, base + HEADER ≤ r.1 ∧ r.1 + HEADER * r.2 < 2 ^ 32

/-- What `morecore` has asked for is what `sbrk` was called with. -/
def Exact (e : Nat × Int) : Prop := e.2 = e.1 * HEADER ∧ 0 < e.2

/-- What a call leaves as it is: the pointers in use and the sizes of the blocks `O`. If it asks for
memory, then for what it needs. -/
structure Keeps (s s' : Heap) (O : List Nat) : Prop where
  live : s'.live = s.live
  asked : ∀ e ∈ s'.asked, e ∈ s.asked ∨ Exact e
  size : ∀ x ∈ O, s'.size x = s.size x

lemma Keeps.trans {s'' : Heap} (h : Keeps s s' O) (h' : Keeps s' s'' O) : Keeps s s'' O where
  live := h'.live.trans h.live
  asked e he := (h'.asked e he).elim (h.asked e) .inr
  size x hx := (h'.size x hx).trans (h.size x hx)

namespace Place

/-- The block before `bp` ends before it. -/
lemma below (hp : Place base F F1 F2 L p bp) (h : Ok base s F (bp :: O)) :
    p + HEADER * s.size p ≤ bp := by
  have hlt := hp.lt
  have hmem : p ∈ base :: F := by rw [hp.list_eq]; simp
  rcases mem_cons.mp hmem with rfl | hmem
  · rw [h.base_size]
    omega
  · have hapart := (pairwise_append.mp h.blocks.apart).2.2 p hmem bp (by simp)
    unfold NoOverlap at hapart
    omega

/-- The block after `bp` begins after its end. -/
lemma above (hp : Place base F F1 F2 L p bp) (h : Ok base s F (bp :: O)) (hx : x ∈ F2) :
    bp + HEADER * s.size bp ≤ x := by
  have hlt := hp.after x hx
  have hapart := (pairwise_append.mp h.blocks.apart).2.2 x (by simp [hp.list, hx]) bp (by simp)
  unfold NoOverlap at hapart
  omega

lemma plus_eq (hp : Place base F F1 F2 L p bp) (h : Ok base s F (bp :: O)) :
    plus bp (s.size bp) = s.ptr p ↔ ∃ B, F2 = (bp + HEADER * s.size bp) :: B := by
  have hbounds := h.bounds_of_mem (x := bp) (by simp)
  have hpos := h.pos
  rw [h.ptr_eq hp.list_eq]
  unfold plus
  cases hF : F2 with
  | nil =>
    have hlt := hp.before base (by simp)
    simp only [headD_nil, reduceCtorEq, exists_false, iff_false]
    omega
  | cons q B =>
    have hq := h.bounds_of_mem (x := q) (by simp [hp.list, hF])
    have hqpos := Nat.mul_pos header_pos (h.blocks.pos q (by simp [hp.list, hF]))
    have hle := hp.above h (x := q) (by simp [hF])
    simp only [headD_cons, List.cons.injEq, exists_eq_right']
    omega

lemma ne_of_mem_before (hp : Place base F F1 F2 L p bp) (hx : x ∈ base :: F1) : x ≠ bp :=
  (hp.before x hx).ne

lemma ne_of_mem_after (hp : Place base F F1 F2 L p bp) (hx : x ∈ F2 ++ [base]) : x ≠ bp := by
  rcases mem_append.mp hx with hx | hx
  · exact (hp.after x hx).ne'
  · rw [mem_singleton.mp hx]
    exact hp.ne_of_mem_before (by simp)

lemma ring_split (hp : Place base F F1 F2 L p bp) (h : Ok base s F O) :
    (base :: F1).IsChain s.Next ∧ (F2 ++ [base]).IsChain s.Next := by
  have hring := h.ring
  rw [hp.list, ← cons_append, append_assoc] at hring
  exact ⟨hring.left_of_append, hring.right_of_append⟩

lemma gaps_split (hp : Place base F F1 F2 L p bp) (h : Ok base s F O) :
    (base :: F1).IsChain s.Gap ∧ F2.IsChain s.Gap := by
  have hgaps := h.gaps
  rw [hp.list, ← cons_append] at hgaps
  exact ⟨hgaps.left_of_append, hgaps.right_of_append⟩

/-- The first join, when `bp` is not adjacent to the block after it. -/
lemma linkUp_apart (hp : Place base F F1 F2 L p bp) (h : Ok base s F (bp :: O))
    (hup : plus bp (s.size bp) ≠ s.ptr p) : Mid base (s.linkUp bp p) F1 F2 O p bp := by
  have hkeep : s.linkUp bp p = s.setPtr bp (s.ptr p) := if_neg hup
  obtain ⟨hleft, hright⟩ := hp.ring_split h
  obtain ⟨hgleft, hgright⟩ := hp.gaps_split h
  rw [hkeep]
  exact {
    pos := h.pos
    left := by
      apply isChain_frame hleft
      intro x hx y hxy
      rwa [Next, ptr_setPtr_ne (hp.ne_of_mem_before hx)]
    right := by
      apply isChain_next_cons
      · rw [ptr_setPtr, h.ptr_eq hp.list_eq]
      · apply isChain_frame hright
        intro x hx y hxy
        rwa [Next, ptr_setPtr_ne (hp.ne_of_mem_after hx)]
    gapsLeft := hgleft
    gapsRight := by
      rw [isChain_cons]
      refine ⟨?_, hgright⟩
      intro q hq
      obtain ⟨B, rfl⟩ := head?_eq_some_iff.mp hq
      have hle := hp.above h (x := q) (by simp)
      have hneq : bp + HEADER * s.size bp ≠ q := by
        intro e
        exact hup ((hp.plus_eq h).mpr ⟨B, by rw [e]⟩)
      change bp + HEADER * s.size bp < q
      omega
    below := hp.below (s := s) h
    base_size := h.base_size
    blocks := by
      apply h.blocks.perm
      rw [perm_iff_count, hp.list]
      intro a
      simp only [count_append, count_cons]
      omega
    bounds := h.bounds }

/-- The first join, when the next block begins where `bp` ends. -/
lemma linkUp_join {q : Nat} (hp : Place base F F1 (q :: B) L p bp) (h : Ok base s F (bp :: O))
    (hq : q = bp + HEADER * s.size bp) :
    Mid base (s.linkUp bp p) F1 B O p bp ∧ Keeps s (s.linkUp bp p) O ∧
      (s.linkUp bp p).size bp = s.size bp + s.size q := by
  have hptr : s.ptr p = q := h.ptr_eq hp.list_eq
  have hup : plus bp (s.size bp) = s.ptr p := (hp.plus_eq h).mpr ⟨B, by rw [hq]⟩
  have hqmem : q ∈ F := by simp [hp.list]
  have hqb := h.bounds_of_mem (x := q) (by simp [hqmem])
  have hqbp : q ≠ bp := (hp.after q (by simp)).ne'
  have hmod : (s.size bp + s.size q) % 2 ^ 32 = s.size bp + s.size q := by
    apply Nat.mod_eq_of_lt
    simp only [HEADER] at *
    omega
  have hkeep : s.linkUp bp p =
      (s.setSize bp (s.size bp + s.size q)).setPtr bp (s.ptr q) := by
    rw [linkUp, if_pos hup, hptr, hmod]
    simp [hptr]
  have hblocks : Blocks HEADER s.memory s.size (bp :: q :: (F1 ++ B ++ O)) := by
    apply h.blocks.perm
    rw [perm_iff_count, hp.list]
    intro a
    simp only [count_append, count_cons]
    omega
  have hother : ∀ z ∈ F1 ++ B ++ O, z ≠ bp := by
    rintro z hz rfl
    exact (nodup_cons.mp (hblocks.nodup header_pos)).1 (mem_cons_of_mem q hz)
  have hright := (hp.ring_split h).2
  obtain ⟨hgleft, hgright⟩ := hp.gaps_split h
  rw [hkeep]
  refine ⟨?_, ⟨rfl, fun _ => .inl, fun x hx => size_setSize_ne (hother x (by simp [hx]))⟩, by simp⟩
  exact {
      pos := h.pos
      left := by
        apply isChain_frame (hp.ring_split h).1
        intro x hx y hxy
        rwa [Next, ptr_setPtr_ne (hp.ne_of_mem_before hx)]
      right := by
        apply isChain_next_cons
        · have hl : base :: F = (L ++ [p]) ++ q :: B := by simp [hp.list_eq]
          rw [ptr_setPtr, h.ptr_eq hl]
        · apply isChain_frame (isChain_cons.mp hright).2
          intro x hx y hxy
          rwa [Next, ptr_setPtr_ne (hp.ne_of_mem_after (by simp at hx ⊢; tauto))]
      gapsLeft := by
        apply isChain_frame hgleft
        intro x hx y hxy
        rwa [Gap, size_setPtr, size_setSize_ne (hp.ne_of_mem_before hx)]
      gapsRight := by
        obtain ⟨hfirst, hrest⟩ := isChain_cons.mp hgright
        rw [isChain_cons]
        constructor
        · intro z hz
          have := hfirst z hz
          rw [Gap, size_setPtr, size_setSize, Nat.mul_add]
          unfold Gap at this
          omega
        · apply isChain_frame hrest
          intro x hx y hxy
          rwa [Gap, size_setPtr, size_setSize_ne (hp.ne_of_mem_after (by simp [hx]))]
      below := by
        rw [size_setPtr, size_setSize_ne hp.lt.ne]
        exact hp.below h
      base_size := by
        rw [size_setPtr, size_setSize_ne (hp.ne_of_mem_before (by simp))]
        exact h.base_size
      blocks := hblocks.merge header_pos hq (by simp) fun z hz => size_setSize_ne (hother z hz)
      bounds := h.bounds }

/-- The first join. -/
lemma linkUp (hp : Place base F F1 F2 L p bp) (h : Ok base s F (bp :: O)) :
    ∃ F3, Mid base (s.linkUp bp p) F1 F3 O p bp ∧ Keeps s (s.linkUp bp p) O ∧
      s.size bp ≤ (s.linkUp bp p).size bp := by
  by_cases hup : plus bp (s.size bp) = s.ptr p
  · obtain ⟨B, rfl⟩ := (hp.plus_eq h).mp hup
    obtain ⟨hmid, hkeeps, hsize⟩ := hp.linkUp_join h rfl
    exact ⟨B, hmid, hkeeps, by omega⟩
  · have hkeep : s.linkUp bp p = s.setPtr bp (s.ptr p) := if_neg hup
    refine ⟨F2, hp.linkUp_apart h hup, ?_, ?_⟩
    · rw [hkeep]
      exact ⟨rfl, fun _ => .inl, fun _ _ => rfl⟩
    · rw [hkeep]
      exact Nat.le_refl _

end Place

namespace Mid

lemma bounds_of_mem (h : Mid base s F1 F2 O p bp) (hx : x ∈ bp :: (F1 ++ F2 ++ O)) :
    base + HEADER ≤ x ∧ x + HEADER * s.size x < 2 ^ 32 :=
  h.blocks.bounds header_pos h.bounds hx

/-- The list after the second join: `R` comes after `p`. -/
lemma ok {R : List Nat} (h : Mid base s F1 F2 O p bp) (hlast : base :: F1 = L ++ [p])
    (hptr : ∀ x, x ≠ p → s'.ptr x = s.ptr x) (hsize : ∀ x, x ≠ p → s'.size x = s.size x)
    (hmem : s'.memory = s.memory) (hp : s'.ptr p = R.headD base) (hpR : p ∉ R)
    (hnext : (R ++ [base]).IsChain s.Next) (hgap : R.IsChain s.Gap)
    (hfirst : ∀ y ∈ R.head?, p + HEADER * s'.size p < y) (hbase : s'.size base = 0)
    (hblocks : Blocks HEADER s'.memory s'.size (F1 ++ R ++ O)) :
    Ok base { s' with freep := p } (F1 ++ R) O := by
  have hlist : base :: (F1 ++ R) = L ++ p :: R := by
    rw [← cons_append, hlast, append_assoc, singleton_append]
  have hpL : ∀ x ∈ L, x ≠ p := by
    have hsorted := sorted_of_gaps h.gapsLeft
    rw [hlast] at hsorted
    exact fun x hx => ((pairwise_append.mp hsorted).2.2 x hx p (by simp)).ne
  have hR : ∀ x ∈ R, x ≠ p := fun x hx e => hpR (e ▸ hx)
  have hleft := h.left
  have hgleft := h.gapsLeft
  rw [hlast] at hleft hgleft
  constructor
  case pos => exact h.pos
  case ring =>
    rw [hlist, append_assoc, cons_append, isChain_split]
    constructor
    · apply isChain_concat_congr hleft
      intro x hx y hxy
      exact (hptr x (hpL x hx)).trans hxy
    · apply isChain_next_cons hp
      apply isChain_concat_congr hnext
      intro x hx y hxy
      exact (hptr x (hR x hx)).trans hxy
  case gaps =>
    rw [hlist, isChain_split]
    constructor
    · apply isChain_concat_congr hgleft
      intro x hx y hxy
      rwa [Gap, hsize x (hpL x hx)]
    · rw [isChain_cons]
      refine ⟨hfirst, isChain_frame hgap fun x hx y hxy => ?_⟩
      rwa [Gap, hsize x (hR x hx)]
  case base_size => exact hbase
  case freep =>
    rw [hlist]
    simp
  case blocks => exact hblocks
  case bounds =>
    rw [hmem]
    exact h.bounds

/-- The second join, when there is a gap before `bp`. -/
lemma linkDown_apart (h : Mid base s F1 F2 O p bp) (hlast : base :: F1 = L ++ [p])
    (hdown : plus p (s.size p) ≠ bp) :
    Ok base { s.linkDown bp p with freep := p } (F1 ++ bp :: F2) O := by
  have hbp := h.bounds_of_mem (x := bp) (by simp)
  have hbelow := h.below
  have hsorted := sorted_of_gaps h.gapsRight
  have hkeep : s.linkDown bp p = s.setPtr p bp := if_neg hdown
  have hgap : p + HEADER * s.size p < bp := by
    unfold plus at hdown
    omega
  have hpR : p ∉ bp :: F2 := by
    intro hm
    rcases mem_cons.mp hm with rfl | hm
    · omega
    · have := (pairwise_cons.mp hsorted).1 p hm
      omega
  rw [hkeep]
  refine h.ok hlast (fun x hx => ptr_setPtr_ne hx)
    (fun _ _ => rfl) rfl ptr_setPtr hpR h.right h.gapsRight
    ?_ h.base_size ?_
  · intro y hy
    obtain rfl := Option.some.inj hy
    exact hgap
  · apply h.blocks.perm
    rw [perm_iff_count]
    intro a
    simp only [count_append, count_cons]
    omega

/-- The second join, when `bp` begins where `p` ends. -/
lemma linkDown_join (h : Mid base s F1 F2 O p bp) (hlast : base :: F1 = L ++ [p])
    (hdown : plus p (s.size p) = bp) :
    Ok base { s.linkDown bp p with freep := p } (F1 ++ F2) O ∧ p ∈ F1 ∧
      (∀ x, x ≠ p → (s.linkDown bp p).size x = s.size x) ∧
      (s.linkDown bp p).size p = s.size p + s.size bp := by
  have hbp := h.bounds_of_mem (x := bp) (by simp)
  have hbelow := h.below
  have hadj : bp = p + HEADER * s.size p := by
    unfold plus at hdown
    omega
  have hpbase : p ≠ base := by
    rintro rfl
    rw [h.base_size] at hadj
    simp only [HEADER] at *
    omega
  -- `p` is the last block of `F1`
  obtain ⟨L1, hF1⟩ : ∃ L1, F1 = L1 ++ [p] := by
    cases L with
    | nil => exact absurd (List.cons.inj hlast).1.symm hpbase
    | cons b L1 => exact ⟨L1, (List.cons.inj hlast).2⟩
  have hsum : (s.size p + s.size bp) % 2 ^ 32 = s.size p + s.size bp := by
    apply Nat.mod_eq_of_lt
    simp only [HEADER] at *
    omega
  have hkeep : s.linkDown bp p = (s.setSize p (s.size p + s.size bp)).setPtr p (s.ptr bp) := by
    rw [linkDown, if_pos hdown, hsum]
    rfl
  have hsize : ∀ x, x ≠ p → (s.linkDown bp p).size x = s.size x := by
    intro x hx
    rw [hkeep, size_setPtr, size_setSize_ne hx]
  have hsizep : (s.linkDown bp p).size p = s.size p + s.size bp := by
    rw [hkeep, size_setPtr, size_setSize]
  have hblocks : Blocks HEADER s.memory s.size (p :: bp :: (L1 ++ F2 ++ O)) := by
    apply h.blocks.perm
    rw [perm_iff_count, hF1]
    intro a
    simp only [count_append, count_cons, count_nil]
    omega
  have hother : ∀ z ∈ L1 ++ F2 ++ O, z ≠ p := by
    rintro z hz rfl
    exact (nodup_cons.mp (hblocks.nodup header_pos)).1 (mem_cons_of_mem bp hz)
  refine ⟨?_, by simp [hF1], hsize, hsizep⟩
  refine h.ok hlast (fun x hx => ?_) hsize ?_ ?_ (fun hm => hother p (by simp [hm]) rfl)
    (isChain_cons.mp h.right).2 (isChain_cons.mp h.gapsRight).2 ?_ ?_ ?_
  · rw [hkeep, ptr_setPtr_ne hx, ptr_setSize]
  · rw [hkeep]
    rfl
  · rw [hkeep, ptr_setPtr]
    have hnext := h.right
    cases F2 with
    | nil => exact (isChain_cons_cons.mp hnext).1
    | cons y F2 => exact (isChain_cons_cons.mp hnext).1
  · intro y hy
    have hgap := (isChain_cons.mp h.gapsRight).1 y hy
    rw [hsizep, Nat.mul_add]
    unfold Gap at hgap
    omega
  · rw [hsize base hpbase.symm, h.base_size]
  · have hmerged := hblocks.merge header_pos hadj hsizep fun z hz => hsize z (hother z hz)
    have hmem : (s.linkDown bp p).memory = s.memory := by
      rw [hkeep]
      rfl
    rw [hmem]
    apply hmerged.perm
    rw [perm_iff_count, hF1]
    intro a
    simp only [count_append, count_cons, count_nil]
    omega

/-- The second join: the blocks are in order again. -/
lemma linkDown (h : Mid base s F1 F2 O p bp) (hlast : base :: F1 = L ++ [p]) :
    ∃ F, Ok base { s.linkDown bp p with freep := p } F O ∧
      Keeps s { s.linkDown bp p with freep := p } O ∧
      ∃ x ∈ F, s.size bp ≤ (s.linkDown bp p).size x := by
  by_cases hdown : plus p (s.size p) = bp
  · obtain ⟨hok, hp, hsize, hsizep⟩ := h.linkDown_join hlast hdown
    have hO : ∀ x ∈ O, x ≠ p := by
      rintro x hx rfl
      have hnodup := (nodup_cons.mp (h.blocks.nodup header_pos)).2
      exact disjoint_of_nodup_append hnodup (by simp [hp]) hx
    refine ⟨F1 ++ F2, hok, ⟨?_, ?_, fun x hx => hsize x (hO x hx)⟩, p, by simp [hp], by omega⟩
    · rw [Heap.linkDown, if_pos hdown]
      rfl
    · rw [Heap.linkDown, if_pos hdown]
      exact fun _ => .inl
  · have hkeep : s.linkDown bp p = s.setPtr p bp := if_neg hdown
    refine ⟨F1 ++ bp :: F2, h.linkDown_apart hlast hdown, ?_, bp, by simp, ?_⟩
    · rw [hkeep]
      exact ⟨rfl, fun _ => .inl, fun _ _ => rfl⟩
    · rw [hkeep]
      exact Nat.le_refl _

end Mid

/-- `free` ends, and the block is on the free list. -/
lemma exists_free (ap : Nat) (h : Ok base s F ((ap - HEADER) :: O)) :
    ∃ k s', s.free k ap = some s' ∧ Keeps s s' O ∧ ∃ F', Ok base s' F' O ∧
      ∃ x ∈ F', s.size (ap - HEADER) ≤ s'.size x := by
  have hbounds := h.bounds_of_mem (x := ap - HEADER) (by simp)
  have hbp : ap - HEADER ∉ F := by
    have hnodup := h.blocks.nodup header_pos
    exact fun hm => disjoint_of_nodup_append hnodup hm (by simp)
  have hbase : base < ap - HEADER := by
    have := header_pos
    omega
  obtain ⟨F1, F2, L, p, hp⟩ := exists_place (pairwise_cons.mp h.sorted).2 hbase hbp
  obtain ⟨k, hk⟩ := hp.exists_freeLoop h h.freep
  obtain ⟨F3, hmid, hkeeps, hsize⟩ := hp.linkUp h
  obtain ⟨F', hok, hkeeps', x, hx, hsize'⟩ := hmid.linkDown hp.last
  refine ⟨k, _, ?_, hkeeps.trans hkeeps', F', hok, x, hx, hsize.trans hsize'⟩
  rw [free, hk]
  rfl

lemma free_mono {k m ap : Nat} (h : s.free k ap = some s') (hkm : k ≤ m) :
    s.free m ap = some s' := by
  rw [free] at h ⊢
  cases hl : s.freeLoop (ap - HEADER) k s.freep with
  | none =>
    rw [hl] at h
    cases h
  | some p =>
    rw [hl] at h
    rw [freeLoop_mono hl hkm]
    exact h

end

end Xv6.User.Heap
