import Xv6.Lib.Bytes

/-!
# Lists in a circular buffer

A buffer of `n` places holds a list from a place on, around its end. An index that grows without
bound, or modulo a multiple of `n`, names a place by its remainder.
-/

namespace Xv6.Lib.Ring

variable {α : Type} {n : Nat} {buf : Nat → α} {i j : Nat} {l l' : List α} {a : α}

/-- The `n` places of `buf` hold `l` from place `i` on. -/
def Holds (n : Nat) (buf : Nat → α) (i : Nat) (l : List α) : Prop :=
  ∀ k, k < l.length → l[k]? = some (buf ((i + k) % n))

@[simp] lemma Holds.nil : Holds n buf i [] := by
  intro k hk
  simp at hk

lemma Holds.congr (h : Holds n buf i l) (hij : j % n = i % n) : Holds n buf j l := by
  intro k hk
  rw [h k hk, Nat.add_mod i, Nat.add_mod j, hij]

@[simp] lemma holds_cons : Holds n buf i (a :: l) ↔ buf (i % n) = a ∧ Holds n buf (i + 1) l := by
  constructor
  · intro h
    constructor
    · simpa using (h 0 (by simp)).symm
    · intro k hk
      have := h (k + 1) (by simpa using hk)
      rwa [List.getElem?_cons_succ, Nat.add_comm k, ← Nat.add_assoc] at this
  · intro ⟨h0, h⟩ k hk
    cases k with
    | zero => simp [h0]
    | succ k =>
      rw [List.getElem?_cons_succ, h k (by simpa using hk), Nat.add_comm k, ← Nat.add_assoc]

@[simp] lemma holds_append :
    Holds n buf i (l ++ l') ↔ Holds n buf i l ∧ Holds n buf (i + l.length) l' := by
  induction l generalizing i with
  | nil => simp
  | cons a l ih => simp [ih, and_assoc, Nat.add_comm 1, Nat.add_assoc]

lemma places_ne {k m : Nat} (hkm : k < m) (hm : m < n) : (i + k) % n ≠ (i + m) % n := by
  intro h
  have hdist := Nat.sub_mod_eq_zero_of_mod_eq h.symm
  rw [Nat.add_sub_add_left, Nat.mod_eq_of_lt (by omega)] at hdist
  omega

/-- A value is put behind the list. -/
lemma Holds.push (h : Holds n buf i l) (hl : l.length < n) (a : α) :
    Holds n (upd buf ((i + l.length) % n) a) i (l ++ [a]) := by
  rw [holds_append]
  constructor
  · intro k hk
    rw [h k hk, upd_ne (places_ne hk hl)]
  · simp

end Xv6.Lib.Ring
