import Xv6.Lib.Bytes

/-!
# Doubly linked lists

Pointers `next` and `prev` lead from a node through a list to another node, and back. If the two
nodes are one, the list is a ring. -/

namespace Xv6.Lib

open List

/-- From `x` on, the pointers `next` lead through `l` to `z`, and the pointers `prev` back. -/
def Links (next prev : Nat → Nat) : Nat → List Nat → Nat → Prop
  | x, [], z => next x = z ∧ prev z = x
  | x, a :: l, z => next x = a ∧ prev a = x ∧ Links next prev a l z

namespace Links

variable {next prev next' prev' : Nat → Nat} {x a b z : Nat} {l l' : List Nat}

@[simp] lemma nil_iff : Links next prev x [] z ↔ next x = z ∧ prev z = x := Iff.rfl

@[simp] lemma cons_iff :
    Links next prev x (a :: l) z ↔ next x = a ∧ prev a = x ∧ Links next prev a l z := Iff.rfl

@[simp] lemma append_iff :
    Links next prev x (l ++ a :: l') z ↔ Links next prev x l a ∧ Links next prev a l' z := by
  induction l generalizing x with
  | nil => simp [and_assoc]
  | cons b l ih => simp [ih, and_assoc]

/-- The pointers that matter are those of the nodes. -/
lemma congr (h : Links next prev x l z) (hn : ∀ a ∈ x :: l, next' a = next a)
    (hp : ∀ a ∈ l ++ [z], prev' a = prev a) : Links next' prev' x l z := by
  induction l generalizing x with
  | nil =>
    constructor
    · simp [hn, h.1]
    · simp [hp, h.2]
  | cons a l ih =>
    simp only [cons_append, forall_mem_cons] at hn hp
    obtain ⟨h1, h2, h⟩ := h
    refine ⟨hn.1.trans h1, hp.1.trans h2, ih h ?_ hp.2⟩
    simpa using hn.2

/-- The other way round. -/
lemma reverse (h : Links next prev x l z) : Links prev next z l.reverse x := by
  induction l generalizing x with
  | nil => exact h.symm
  | cons a l ih =>
    obtain ⟨h1, h2, h⟩ := h
    rw [reverse_cons, append_iff]
    exact ⟨ih h, h2, h1⟩

lemma next_mem (h : Links next prev x l z) : next x ∈ l ++ [z] := by
  cases l with
  | nil => simp [h.1]
  | cons a l => simp [h.1]

lemma prev_mem (h : Links next prev x l z) : prev z ∈ x :: l := by
  simpa [or_comm] using h.reverse.next_mem

/-- A node is taken out. -/
lemma unlink (h : Links next prev x l b) (h' : Links next prev b l' z)
    (hn : (x :: (l ++ b :: l')).Nodup)
    (hp : (l ++ b :: (l' ++ [z])).Nodup) :
    Links (upd next (prev b) (next b)) (upd prev (next b) (prev b)) x (l ++ l') z := by
  induction l generalizing x with
  | nil =>
    obtain ⟨-, hx⟩ := h
    rw [hx]
    cases l' with
    | nil => simp [h'.1]
    | cons c l' =>
      obtain ⟨hc, -, h'⟩ := h'
      rw [hc]
      simp only [nil_append, cons_append, nodup_cons, mem_cons, not_or] at hn hp
      refine ⟨upd_same .., upd_same .., h'.congr ?_ ?_⟩
      · intro a ha
        apply upd_ne
        rintro rfl
        simp_all
      · intro a ha
        apply upd_ne
        rintro rfl
        simp_all
  | cons a l ih =>
    obtain ⟨h1, h2, h⟩ := h
    simp only [cons_append, nodup_cons] at hn hp
    have hx : x ≠ prev b := by
      intro e
      have := h.prev_mem
      rw [← e] at this
      apply hn.1
      simp only [mem_cons, mem_append] at this ⊢
      tauto
    have ha : a ≠ next b := by
      intro e
      have := h'.next_mem
      rw [← e] at this
      apply hp.1
      simp only [mem_cons, mem_append] at this ⊢
      tauto
    refine ⟨?_, ?_, ih h ?_ hp.2⟩
    · rw [upd_ne hx, h1]
    · rw [upd_ne ha, h2]
    · simpa using hn.2

/-- A node is put behind `x`. -/
lemma insert (h : Links next prev x l z) (hb : b ∉ x :: l) (hz : b ≠ z) (hn : (x :: l).Nodup)
    (hp : (l ++ [z]).Nodup) :
    Links (upd (upd next b (next x)) x b) (upd (upd prev b x) (next x) b) x (b :: l) z := by
  have hbx : b ≠ x := fun e => hb (by simp [e])
  have hnext : next x ≠ b := by
    intro e
    have := h.next_mem
    simp only [e, mem_append, mem_singleton, hz, or_false] at this
    exact hb (mem_cons_of_mem x this)
  refine ⟨upd_same .., ?_, ?_⟩
  · rw [upd_ne hnext.symm, upd_same]
  · cases l with
    | nil =>
      constructor
      · rw [upd_ne hbx, upd_same, h.1]
      · rw [h.1, upd_same]
    | cons a l =>
      obtain ⟨ha, -, h⟩ := h
      rw [ha]
      simp only [cons_append, nodup_cons, mem_cons, mem_append, not_or] at hn hp hb
      refine ⟨?_, upd_same .., h.congr ?_ ?_⟩
      · rw [upd_ne hbx, upd_same]
      · intro c hc
        have hcx : c ≠ x := by rintro rfl; simp_all
        have hcb : c ≠ b := by rintro rfl; simp_all
        rw [upd_ne hcx, upd_ne hcb]
      · intro c hc
        have hca : c ≠ a := by rintro rfl; simp_all
        have hcb : c ≠ b := by rintro rfl; simp_all
        rw [upd_ne hca, upd_ne hcb]

end Links

end Xv6.Lib
