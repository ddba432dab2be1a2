import Xv6.Lib.Bytes

/-!
# Chains of pointers

A list of places that a pointer leads to, one after the other, up to the null pointer.
-/

namespace Xv6.Lib

/-- From `p` on, the pointers `next` lead through `l` and end. -/
def Chain (next : Nat → Option Nat) : Option Nat → List Nat → Prop
  | p, [] => p = none
  | p, a :: l => p = some a ∧ Chain next (next a) l

namespace Chain

variable {next : Nat → Option Nat} {p : Option Nat} {a b : Nat} {l : List Nat}

@[simp] lemma nil_iff : Chain next p [] ↔ p = none := Iff.rfl

@[simp] lemma cons_iff : Chain next p (a :: l) ↔ p = some a ∧ Chain next (next a) l := Iff.rfl

/-- A pointer that is not in the chain may change. -/
lemma upd (h : Chain next p l) (ha : a ∉ l) (q : Option Nat) : Chain (upd next a q) p l := by
  induction l generalizing p with
  | nil => exact h
  | cons b l ih =>
    have hb : b ≠ a := fun e => ha (by simp [e])
    rw [cons_iff, upd_ne hb]
    exact ⟨h.1, ih h.2 fun hl => ha (by simp [hl])⟩

/-- A place is put behind the last one. -/
lemma snoc (h : Chain next p (l ++ [a])) (hl : (l ++ [a]).Nodup) (hb : b ∉ l ++ [a])
    (hnext : next b = none) : Chain (Lib.upd next a (some b)) p (l ++ [a] ++ [b]) := by
  induction l generalizing p with
  | nil =>
    have hba : b ≠ a := by simpa using hb
    simp [hnext, upd_ne hba, h.1]
  | cons c l ih =>
    rw [List.cons_append, List.nodup_cons] at hl
    have hca : c ≠ a := fun e => hl.1 (by simp [e])
    rw [List.cons_append, List.cons_append, cons_iff, upd_ne hca]
    exact ⟨h.1, ih h.2 hl.2 fun hm => hb (List.mem_cons_of_mem _ hm)⟩

lemma eq_head? (h : Chain next p l) : p = l.head? := by
  cases l with
  | nil => exact h
  | cons a l => exact h.1

end Chain

end Xv6.Lib
