import Xv6.Vm.Lifetime

/-!
# The free list at boot

What `main` does with pages before `userinit`.
-/

namespace Xv6.Vm

open Lib Prog

/-- Free the pages from `PGROUNDUP(vstart)` on that end at `vend` or before. -/
def freerange (sy : Symbols) (vstart vend : Nat) : V Unit :=
  (List.range' ((PGROUNDUP vstart - KERNBASE) / PGSIZE) ((vend - PGROUNDUP vstart) / PGSIZE)).forM
    (kfree sy)

/-- The stacks of `n` other processors. -/
def startothers : Nat → V Unit
  | 0 => pure ()
  | n + 1 => do
    let _ ← kalloc
    startothers n

/-- `kinit1`, `kvmalloc`, `startothers` and `kinit2`; the result is `kpgdir`. -/
def main (sy : Symbols) (n : Nat) : V (Option Nat) := do
  freerange sy sy.fin (KERNBASE + 4 * 1024 * 1024)
  let kpgdir ← setupkvm sy
  startothers n
  freerange sy (KERNBASE + 4 * 1024 * 1024) (KERNBASE + PHYSTOP)
  pure kpgdir

section Main

variable {sy : Symbols} {sect page : Nat → Bytes} {l l' : List Nat} {f k n : Nat}
  {E : Option Panic → State → Prop}

lemma wp_kfrees (hv : ∀ g ∈ l', sy.Valid g) : (l'.forM (kfree sy)).wp
    (fun _ s => ∃ page, s = boot sect page (l'.reverse ++ l)) E (boot sect page l) := by
  induction l' generalizing page l with
  | nil => exact ⟨page, rfl⟩
  | cons g l' ih =>
    obtain ⟨hg, hv⟩ := List.forall_mem_cons.mp hv
    change (kfree sy g >>= fun _ => l'.forM (kfree sy)).wp _ _ _
    rw [kfree, if_neg hg, List.reverse_cons, List.append_assoc]
    exact ih hv

lemma wp_startothers (hn : n ≤ l.length) :
    (startothers n).wp (fun _ s => s = boot sect page (l.drop n)) E (boot sect page l) := by
  induction n generalizing l with
  | zero => rfl
  | succ n ih =>
    obtain ⟨g, l, rfl⟩ := List.exists_cons_of_length_pos (by omega : 0 < l.length)
    exact ih (Nat.le_of_succ_le_succ hn)

/-- If the kernel, 65 pages and the stacks fit in 4 megabytes, `main` gets to `userinit` with every
other page up to `PHYSTOP` on the free list once. -/
theorem main_freelist (hfin : PGROUNDUP sy.fin = KERNBASE + PGSIZE * f)
    (hk : f + k + 65 + n = 1024) :
    ∃ r s, (main sy n).run (boot sect page []) = .ok r s ∧ r ≠ none ∧
      ∃ page', s = boot sect page' (List.range' f k ++ List.range' 1024 56320).reverse := by
  have hv : ∀ g m, f ≤ g → g + m ≤ 57344 → ∀ x ∈ List.range' g m, sy.Valid x := by
    intro g m hg hm x hx
    rw [List.mem_range'_1] at hx
    have := sy.fin_le
    simp only [Symbols.Valid, PGROUNDUP, KERNBASE, PGSIZE, PHYSTOP] at *
    omega
  have hv1 := hv f (k + (65 + n)) le_rfl (by omega)
  have hfirst : freerange sy sy.fin (KERNBASE + 4 * 1024 * 1024) =
      (List.range' f (k + (65 + n))).forM (kfree sy) := by
    rw [freerange, hfin]
    congr 2 <;> simp only [KERNBASE, PGSIZE] <;> omega
  refine wp_total ?_
  rw [main, hfirst]
  refine wp_call (wp_kfrees hv1) ?_
  rintro _ _ ⟨page1, rfl⟩
  rw [List.append_nil]
  refine wp_bind.mpr (wp_setupkvm_drop (R := fun _ => 0)
    ⟨fun _ => rfl, List.nodup_iff_count_le_one.mp
    (List.nodup_reverse.mpr List.nodup_range'), fun g hg =>
      hv1 g (List.mem_reverse.mp (List.count_pos_iff.mp hg))⟩ ?_
        fun d s _ hf _ _ _ _ hfailed hdrop => ?_)
  · simp [boot]
    omega
  obtain ⟨page2, rfl⟩ : ∃ page2,
      s = boot sect page2 ((List.range' f (k + (65 + n))).reverse.drop 65) := by
    cases s
    cases hf
    simp_all [boot]
  refine wp_call (wp_startothers (by simp; omega)) ?_
  rintro _ _ rfl
  refine wp_call (wp_kfrees (hv 1024 56320 (by omega) (by omega))) ?_
  rintro _ _ ⟨page3, rfl⟩
  refine ⟨by simp, page3, ?_⟩
  rw [List.drop_drop, ← List.range'_append_1, List.reverse_append, List.drop_left' (by simp),
    List.reverse_append]
  rfl

/-- A kernel of two pages and seven more processors. -/
theorem main_freelist_twoPages :
    ∃ r s, (main twoPages 7).run (boot (fun _ _ => 0) (fun _ _ => 0) []) =
    .ok r s ∧ r ≠ none := by
  obtain ⟨r, s, hr, h, -⟩ := @main_freelist twoPages _ _ 258 694 7 (by decide) rfl
  exact ⟨r, s, hr, h⟩

end Main

end Xv6.Vm
