import Mathlib.Algebra.BigOperators.Fin

/-!
# Memory in blocks

Blocks of whole units in some memory. A block is known by its address, and `size` has the number of
its units. The memory is a list of parts, each with an address and a number of units. Blocks are
joined, divided and added without any unit being lost.
-/

namespace Xv6.Lib

open List

variable {w : Nat} {mem : List (Nat × Nat)} {size size' : Nat → Nat} {H H' : List Nat}
  {x y a b : Nat}

/-- The blocks at `x` and `y` do not overlap. -/
def NoOverlap (w : Nat) (size : Nat → Nat) (x y : Nat) : Prop :=
  x + w * size x ≤ y ∨ y + w * size y ≤ x

lemma NoOverlap.symm (h : NoOverlap w size x y) : NoOverlap w size y x := Or.symm h

instance : Std.Symm (NoOverlap w size) := ⟨fun _ _ => NoOverlap.symm⟩

/-- The byte at `a` is in the memory. -/
def Within (w : Nat) (mem : List (Nat × Nat)) (a : Nat) : Prop :=
  ∃ r ∈ mem, r.1 ≤ a ∧ a < r.1 + w * r.2

/-- The blocks `H` do not overlap and make up the memory, as far as the number of units goes. They
are aligned if the memory is. -/
structure Blocks (w : Nat) (mem : List (Nat × Nat)) (size : Nat → Nat) (H : List Nat) : Prop where
  apart : H.Pairwise (NoOverlap w size)
  pos : ∀ x ∈ H, 0 < size x
  inside : ∀ x ∈ H, ∀ i < w * size x, Within w mem (x + i)
  total : (H.map size).sum = (mem.map Prod.snd).sum
  align : (∀ r ∈ mem, w ∣ r.1) → ∀ x ∈ H, w ∣ x

namespace Blocks

lemma perm (h : Blocks w mem size H) (hp : H.Perm H') : Blocks w mem size H' where
  apart := (hp.pairwise_iff NoOverlap.symm).mp h.apart
  pos := fun x hx => h.pos x (hp.mem_iff.mpr hx)
  inside := fun x hx => h.inside x (hp.mem_iff.mpr hx)
  total := by rw [← h.total, (hp.map size).sum_eq]
  align := fun hm x hx => h.align hm x (hp.mem_iff.mpr hx)

lemma congr (h : Blocks w mem size H) (hs : ∀ x ∈ H, size' x = size x) :
    Blocks w mem size' H where
  apart := by
    apply h.apart.imp_of_mem
    intro x y hx hy hxy
    unfold NoOverlap
    rwa [hs x hx, hs y hy]
  pos := by
    intro x hx
    rw [hs x hx]
    exact h.pos x hx
  inside := by
    intro x hx
    rw [hs x hx]
    exact h.inside x hx
  total := by
    rw [← h.total]
    exact congrArg List.sum (map_congr_left hs)
  align := h.align

lemma apart_of_ne (h : Blocks w mem size H) (hx : x ∈ H) (hy : y ∈ H) (hne : x ≠ y) :
    NoOverlap w size x y :=
  h.apart.forall hx hy hne

/-- A block is the only one with its address. -/
lemma nodup (hw : 0 < w) (h : Blocks w mem size H) : H.Nodup := by
  apply h.apart.imp_of_mem
  rintro x y hx - hxy rfl
  have hpos := Nat.mul_pos hw (h.pos x hx)
  rcases hxy with hle | hle <;> omega

/-- There is no block inside another. -/
lemma not_mem_inside (hw : 0 < w) (h : Blocks w mem size (x :: H)) (hxa : x ≤ a)
    (hax : a < x + w * size x) : a ∉ H := by
  intro ha
  have hpos := Nat.mul_pos hw (h.pos a (mem_cons_of_mem x ha))
  rcases (pairwise_cons.mp h.apart).1 a ha with hle | hle <;> omega

/-- Blocks are within the bounds of the memory. -/
lemma bounds (hw : 0 < w) (h : Blocks w mem size H) {lo hi : Nat}
    (hm : ∀ r ∈ mem, lo ≤ r.1 ∧ r.1 + w * r.2 < hi) (hx : x ∈ H) :
    lo ≤ x ∧ x + w * size x < hi := by
  have hpos := Nat.mul_pos hw (h.pos x hx)
  obtain ⟨r, hr, hle, -⟩ := h.inside x hx 0 hpos
  obtain ⟨t, ht, -, hlt⟩ := h.inside x hx (w * size x - 1) (by omega)
  have hlo := (hm r hr).1
  have hhi := (hm t ht).2
  omega

/-- Two adjacent blocks are joined. -/
lemma merge (hw : 0 < w) (h : Blocks w mem size (x :: y :: H)) (hy : y = x + w * size x)
    (hx : size' x = size x + size y) (hs : ∀ z ∈ H, size' z = size z) :
    Blocks w mem size' (x :: H) := by
  have hlen : w * size' x = w * size x + w * size y := by rw [hx, Nat.mul_add]
  obtain ⟨hxy, hrest⟩ := pairwise_cons.mp h.apart
  obtain ⟨hyz, hH⟩ := pairwise_cons.mp hrest
  constructor
  · rw [pairwise_cons]
    constructor
    · intro z hz
      have hpos := Nat.mul_pos hw (h.pos z (by simp [hz]))
      have hxz := hxy z (mem_cons_of_mem y hz)
      have hyz := hyz z hz
      unfold NoOverlap at hxz hyz ⊢
      rw [hs z hz, hlen]
      omega
    · apply hH.imp_of_mem
      intro z z' hz hz' hzz'
      unfold NoOverlap
      rwa [hs z hz, hs z' hz']
  · intro z hz
    rcases mem_cons.mp hz with rfl | hz
    · have := h.pos z (by simp)
      omega
    · rw [hs z hz]
      exact h.pos z (by simp [hz])
  · intro z hz i hi
    rcases mem_cons.mp hz with rfl | hz
    · by_cases hlt : i < w * size z
      · exact h.inside z (by simp) i hlt
      · have := h.inside y (by simp) (i - w * size z) (by omega)
        rwa [hy, Nat.add_assoc, Nat.add_sub_of_le (by omega)] at this
    · rw [hs z hz] at hi
      exact h.inside z (by simp [hz]) i hi
  · rw [← h.total]
    simp only [map_cons, sum_cons, hx, map_congr_left hs]
    omega
  · intro hm z hz
    rcases mem_cons.mp hz with rfl | hz
    · exact h.align hm z (by simp)
    · exact h.align hm z (by simp [hz])

/-- A block is divided. -/
lemma split (h : Blocks w mem size (x :: H)) (hn : size x = a + b) (ha : 0 < a) (hb : 0 < b)
    (hx : size' x = a) (hy : size' (x + w * a) = b) (hs : ∀ z ∈ H, size' z = size z) :
    Blocks w mem size' (x :: (x + w * a) :: H) := by
  have hlen : w * size x = w * a + w * b := by rw [hn, Nat.mul_add]
  obtain ⟨hxz, hH⟩ := pairwise_cons.mp h.apart
  constructor
  · rw [pairwise_cons, pairwise_cons]
    refine ⟨?_, ?_, ?_⟩
    · intro z hz
      unfold NoOverlap
      rw [hx]
      rcases mem_cons.mp hz with rfl | hz
      · exact .inl (Nat.le_refl _)
      · have := hxz z hz
        unfold NoOverlap at this
        rw [hs z hz]
        omega
    · intro z hz
      have := hxz z hz
      unfold NoOverlap at this ⊢
      rw [hy, hs z hz]
      omega
    · apply hH.imp_of_mem
      intro z z' hz hz' hzz'
      unfold NoOverlap
      rwa [hs z hz, hs z' hz']
  · intro z hz
    rcases mem_cons.mp hz with rfl | hz
    · omega
    rcases mem_cons.mp hz with rfl | hz
    · omega
    · rw [hs z hz]
      exact h.pos z (by simp [hz])
  · intro z hz i hi
    rcases mem_cons.mp hz with rfl | hz
    · exact h.inside z (by simp) i (by rw [hx] at hi; omega)
    rcases mem_cons.mp hz with rfl | hz
    · rw [hy] at hi
      have := h.inside x (by simp) (w * a + i) (by omega)
      rwa [← Nat.add_assoc] at this
    · rw [hs z hz] at hi
      exact h.inside z (by simp [hz]) i hi
  · rw [← h.total]
    simp only [map_cons, sum_cons, hx, hy, hn, map_congr_left hs]
    omega
  · intro hm z hz
    rcases mem_cons.mp hz with rfl | hz
    · exact h.align hm z (by simp)
    rcases mem_cons.mp hz with rfl | hz
    · exact (Nat.dvd_add (h.align hm x (by simp)) (Nat.dvd_mul_right w a))
    · exact h.align hm z (by simp [hz])

/-- Memory above all that there is becomes a block. -/
lemma add (hw : 0 < w) (h : Blocks w mem size H) (hfresh : ∀ r ∈ mem, r.1 + w * r.2 ≤ x)
    (ha : 0 < a) (hx : size' x = a) (hs : ∀ z ∈ H, size' z = size z) :
    Blocks w (mem ++ [(x, a)]) size' (x :: H) := by
  have hbelow : ∀ z ∈ H, z + w * size z ≤ x := by
    intro z hz
    have hpos := Nat.mul_pos hw (h.pos z hz)
    obtain ⟨r, hr, -, hlt⟩ := h.inside z hz (w * size z - 1) (by omega)
    have := hfresh r hr
    omega
  constructor
  · rw [pairwise_cons]
    constructor
    · intro z hz
      right
      rw [hs z hz]
      exact hbelow z hz
    · apply h.apart.imp_of_mem
      intro z z' hz hz' hzz'
      unfold NoOverlap
      rwa [hs z hz, hs z' hz']
  · intro z hz
    rcases mem_cons.mp hz with rfl | hz
    · rwa [hx]
    · rw [hs z hz]
      exact h.pos z hz
  · intro z hz i hi
    rcases mem_cons.mp hz with rfl | hz
    · rw [hx] at hi
      exact ⟨(z, a), by simp, Nat.le_add_right _ _, Nat.add_lt_add_left hi z⟩
    · rw [hs z hz] at hi
      obtain ⟨r, hr, hin⟩ := h.inside z hz i hi
      exact ⟨r, by simp [hr], hin⟩
  · simp only [map_cons, sum_cons, hx, map_congr_left hs, map_append,
      sum_append, h.total, map_nil, sum_nil]
    omega
  · intro hm z hz
    rcases mem_cons.mp hz with rfl | hz
    · exact hm (z, a) (by simp)
    · exact h.align (fun r hr => hm r (by simp [hr])) z hz

end Blocks

end Xv6.Lib
