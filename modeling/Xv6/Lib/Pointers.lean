import Mathlib.Algebra.BigOperators.Fin

/-!
# Unaliased pointers

A family of pointers to numbered blocks, zero standing for none. `Pointers P ok` says that every
pointer leads to a block with property `ok` and that no two lead to the same block.
-/

namespace Xv6.Lib

variable {ι : Type}

/-- The pointers `P` lead to blocks with property `ok`, no two of them to the same one. -/
structure Pointers (P : ι → Nat) (ok : Nat → Prop) : Prop where
  valid : ∀ x, P x ≠ 0 → ok (P x)
  inj : ∀ x y, P x ≠ 0 → P x = P y → x = y

namespace Pointers

variable {P P' : ι → Nat} {ok ok' : Nat → Prop}

lemma mono (h : Pointers P ok) (hok : ∀ b, ok b → ok' b) : Pointers P ok' :=
  ⟨fun x hx => hok _ (h.valid x hx), h.inj⟩

/-- A new pointer may lead to a block none of the old ones leads to. -/
lemma add [DecidableEq ι] (h : Pointers P ok) {x : ι} {r : Nat}
    (hP : ∀ y, P' y = if y = x then r else P y) (hfresh : ¬ ok r) (hok : ∀ b, ok b → ok' b)
    (hr : ok' r) : Pointers P' ok' := by
  have hold : ∀ y, P y ≠ 0 → P y ≠ r := fun y hy e => hfresh (e ▸ h.valid y hy)
  refine ⟨fun y hy => ?_, fun y z hy hyz => ?_⟩
  · rw [hP] at hy ⊢
    split_ifs at hy ⊢ with hyx
    exacts [hr, hok _ (h.valid y hy)]
  · rw [hP] at hy hyz
    rw [hP z] at hyz
    split_ifs at hy hyz with hyx hzx hzx
    · rw [hyx, hzx]
    · exact absurd hyz.symm (hold z (hyz ▸ hy))
    · exact absurd hyz (hold y hy)
    · exact h.inj y z hy hyz

/-- Pointers may be dropped. -/
lemma drop (h : Pointers P ok) (hP : ∀ x, P' x ≠ 0 → P' x = P x)
    (hok : ∀ x, P' x ≠ 0 → ok (P x) → ok' (P x)) : Pointers P' ok' := by
  refine ⟨fun x hx => ?_, fun x y hx hxy => ?_⟩
  · rw [hP x hx]
    exact hok x hx (h.valid x (hP x hx ▸ hx))
  · have hy : P' y ≠ 0 := hxy ▸ hx
    rw [hP x hx, hP y hy] at hxy
    exact h.inj x y (hP x hx ▸ hx) hxy

lemma congr (h : Pointers P ok) (hP : ∀ x, P' x = P x) : Pointers P' ok :=
  h.drop (fun x _ => hP x) fun _ _ hx => hx

end Pointers

end Xv6.Lib
