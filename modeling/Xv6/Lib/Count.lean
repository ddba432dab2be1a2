import Mathlib.Algebra.BigOperators.Fin

/-!
# Counting the values of a table

`occ S v b` is the number of indices in the finite set `S` at which the table `v` has the value `b`.
A change of one entry moves one index from the count of the old value to that of the new one.
-/

namespace Xv6.Lib

open Finset

variable {ι β : Type} [DecidableEq β] {S : Finset ι} {v w : ι → β} {i : ι} {b : β}

/-- How many indices in `S` have the value `b`. -/
def occ (S : Finset ι) (v : ι → β) (b : β) : Nat := (S.filter fun i => v i = b).card

lemma occ_congr (h : ∀ i ∈ S, w i = v i) : occ S w b = occ S v b := by
  unfold occ
  rw [filter_congr fun i hi => by rw [h i hi]]

lemma occ_eq_sum : occ S v b = ∑ i ∈ S, if v i = b then 1 else 0 := card_filter _ _

/-- One entry is changed. -/
lemma occ_change [DecidableEq ι] (hi : i ∈ S) (h : ∀ j ∈ S, j ≠ i → w j = v j) :
    occ S w b + (if v i = b then 1 else 0) = occ S v b + if w i = b then 1 else 0 := by
  have hrest : ∑ j ∈ S.erase i, (if w j = b then 1 else 0) =
      ∑ j ∈ S.erase i, if v j = b then 1 else 0 := by
    refine sum_congr rfl fun j hj => ?_
    rw [h j (mem_of_mem_erase hj) (ne_of_mem_erase hj)]
  rw [occ_eq_sum, occ_eq_sum, ← add_sum_erase S _ hi, ← add_sum_erase S _ hi, hrest]
  omega

/-- The change of an entry that may be empty. -/
lemma occ_change_some {κ : Type} [DecidableEq κ] [DecidableEq ι] {v w : ι → Option κ} {b : κ}
    (hi : i ∈ S) (h : ∀ j ∈ S, j ≠ i → w j = v j) :
    occ S w (some b) + (v i).toList.count b = occ S v (some b) + (w i).toList.count b := by
  have hone : ∀ o : Option κ, o.toList.count b = if o = some b then 1 else 0 := fun o => by
    cases o with
    | none => simp
    | some a => simp [List.count_singleton]
  rw [hone, hone]
  exact occ_change hi h

lemma count_cons_single (a b : β) (l : List β) : (a :: l).count b = [a].count b + l.count b := by
  rw [← List.count_append]
  rfl

lemma occ_pos (hi : i ∈ S) (h : v i = b) : 0 < occ S v b :=
  card_pos.mpr ⟨i, mem_filter.mpr ⟨hi, h⟩⟩

/-- Two indices with the same value. -/
lemma one_lt_occ {j : ι} (hi : i ∈ S) (hj : j ∈ S) (hij : i ≠ j) (hvi : v i = b) (hvj : v j = b) :
    1 < occ S v b :=
  one_lt_card.mpr ⟨i, mem_filter.mpr ⟨hi, hvi⟩, j, mem_filter.mpr ⟨hj, hvj⟩, hij⟩

lemma occ_eq_zero (h : ∀ i ∈ S, v i ≠ b) : occ S v b = 0 :=
  card_eq_zero.mpr (filter_eq_empty_iff.mpr fun i hi => h i hi)

/-- The value `b` is taken away from the indices in `P`. -/
lemma occ_cut [DecidableEq ι] {P : Finset ι} (hP : P ⊆ S) (hin : ∀ i ∈ P, w i ≠ b)
    (hout : ∀ i ∈ S, i ∉ P → w i = v i) : occ S v b = occ S w b + occ P v b := by
  have hzero : ∑ i ∈ P, (if w i = b then 1 else 0) = 0 :=
    sum_eq_zero fun i hi => if_neg (hin i hi)
  have hrest : ∑ i ∈ S \ P, (if w i = b then 1 else 0) = ∑ i ∈ S \ P, if v i = b then 1 else 0 := by
    refine sum_congr rfl fun i hi => ?_
    rw [hout i (mem_sdiff.mp hi).1 (mem_sdiff.mp hi).2]
  rw [occ_eq_sum, occ_eq_sum, occ_eq_sum, ← sum_sdiff hP,
    ← sum_sdiff hP (f := fun i => if w i = b then 1 else 0), hzero, hrest, Nat.add_zero]

/-- The indices of an interval, the first one apart. -/
lemma occ_Ico {κ : Type} [DecidableEq κ] {v : Nat → Option κ} {b : κ} {m n : Nat} (h : m < n) :
    occ (Finset.Ico m n) v (some b) = (v m).toList.count b + occ (Finset.Ico (m + 1) n) v
      (some b) := by
  have hone : (v m).toList.count b = if v m = some b then 1 else 0 := by
    cases v m with
    | none => simp
    | some a => simp [List.count_singleton]
  rw [occ_eq_sum, occ_eq_sum, ← add_sum_erase _ _ (left_mem_Ico.mpr h),
    ← Nat.Ico_succ_left_eq_erase_Ico, hone]

/-- The values in `U`, counted all together. -/
lemma sum_occ {κ : Type} [DecidableEq κ] {v : ι → Option κ} {U : Finset κ}
    (h : ∀ i ∈ S, ∀ b, v i = some b → b ∈ U) :
    ∑ b ∈ U, occ S v (some b) = (S.filter fun i => v i ≠ none).card := by
  have hmaps : ∀ i ∈ S.filter (fun i => v i ≠ none), v i ∈ U.map Function.Embedding.some := by
    intro i hi
    obtain ⟨hiS, hne⟩ := mem_filter.mp hi
    obtain ⟨b, hb⟩ := Option.ne_none_iff_exists'.mp hne
    rw [hb]
    exact mem_map_of_mem _ (h i hiS b hb)
  rw [card_eq_sum_card_fiberwise hmaps, sum_map]
  refine sum_congr rfl fun b _ => ?_
  unfold occ
  rw [filter_filter]
  congr 1
  refine filter_congr fun i _ => ?_
  refine ⟨fun hb => ⟨by simp [hb], hb⟩, fun hb => hb.2⟩

/-- The elements of a list, counted all together. -/
lemma sum_list_count {l : List β} {U : Finset β} (h : ∀ a ∈ l, a ∈ U) :
    ∑ a ∈ U, l.count a = l.length := by
  have hsum := Multiset.sum_count_eq_card (m := (l : Multiset β)) h
  simpa only [Multiset.coe_count, Multiset.coe_card] using hsum

lemma exists_of_occ_pos (h : 0 < occ S v b) : ∃ i ∈ S, v i = b := by
  obtain ⟨i, hi⟩ := card_pos.mp h
  exact ⟨i, mem_filter.mp hi⟩

end Xv6.Lib
