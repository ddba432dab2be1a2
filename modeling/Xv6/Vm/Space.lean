import Xv6.Vm.Growproc

/-!
# Making and freeing whole address spaces

`setupkvm` makes an address space without user pages, `copyuvm` one with the pages of another, and
`freevm` gives back every page of an address space. When there is no memory these functions lose
pages; `Clean` runs are those in which that has not happened.
-/

namespace Xv6.Vm

open Lib Prog Finset

/-! ### `freevm` -/

/-- What is left of a directory without user pages from entry `i` on. -/
def State.left (s : State) (d i : Nat) : Nat → Nat :=
  fun g => [d].count g + occ (Finset.Ico i NPDENTRIES) (s.table d) (some g)

section Free

variable {sy : Symbols} {T R : Nat → Nat} {s u : State} {d i n g : Nat} {Q : Unit → State → Prop}
  {E : Option Panic → State → Prop}

lemma mass_bare (h : ∀ v < NUSER, s.pte d v = none) (g : Nat) : s.mass d g = s.left d 0 g := by
  have hleaf : occ (Finset.range NUSER) (s.leaf d) (some g) = 0 := by
    refine occ_eq_zero fun v hv => ?_
    rw [State.leaf, h v (mem_range.mp hv)]
    simp
  unfold State.mass State.left
  rw [hleaf, range_eq_Ico, List.count_singleton]
  simp

lemma left_succ (hi : i < NPDENTRIES) :
    s.left d i g = (s.table d i).toList.count g + s.left d (i + 1) g := by
  unfold State.left
  rw [occ_Ico hi]
  omega

lemma left_congr (h : u.page d = s.page d) : u.left d i = s.left d i := by
  unfold State.left
  funext g
  rw [occ_congr fun j _ => table_congr h j]

lemma left_last : s.left d NPDENTRIES g = [d].count g := by
  unfold State.left
  rw [Finset.Ico_self]
  rfl

/-- The tables of the directory `d` are freed from entry `i` on. -/
structure Emptied (R : Nat → Nat) (d i : Nat) (s s' : State) : Prop where
  frame : Frame R s s'
  free : ∀ g ∈ s.fs.freelist, s'.page g = s.page g
  junk : ∀ j, i ≤ j → j < NPDENTRIES → ∀ t, s.table d j = some t → s'.page t = fun _ => 1
  failed : s'.failed = s.failed

/-- The loop gives back each page table it meets. -/
lemma wp_freevmLoop (hn : i + n = NPDENTRIES) (h : Own sy T (fun g => s.left d i g + R g) s)
    (hQ : ∀ s', Own sy T (plus R d) s' → Emptied R d i s s' → Q () s') :
    (freevmLoop sy d i n).wp Q E s := by
  induction n generalizing i s with
  | zero =>
    obtain rfl : i = NPDENTRIES := by omega
    refine hQ s (Own.congr h (fun g => ?_) rfl)
      ⟨Frame.refl R s, fun _ _ => rfl, fun j _ _ => by omega, rfl⟩
    rw [left_last]
    exact Nat.add_comm ..
  | succ n ih =>
    have hi : i < NPDENTRIES := by omega
    rw [freevmLoop, wp_read]
    cases ht : s.table d i with
    | none =>
      rw [if_neg (by rw [table_eq_none.mp ht]; decide)]
      refine ih (by omega) (Own.congr h (fun g => ?_) rfl) fun s' h' he =>
        hQ s' h' ⟨he.frame, he.free, fun j hj hjd t htj => ?_, he.failed⟩
      · rw [left_succ hi, ht, Option.toList_none, List.count_nil, Nat.zero_add]
      · refine he.junk j (Nat.lt_of_le_of_ne hj ?_) hjd t htj
        rintro rfl
        rw [ht] at htj
        cases htj
    | some t =>
      obtain ⟨hp, hframe⟩ := table_eq_some.mp ht
      rw [if_pos hp, hframe]
      have hplus : Own sy T (plus (fun g => s.left d (i + 1) g + R g) t) s := by
        refine Own.congr h (fun g => ?_) rfl
        rw [left_succ hi, ht, Option.toList_some]
        simp only [plus]
        omega
      -- the table is neither free nor the directory nor one of the rest
      have hone := hplus.le_one t
      rw [plus_same] at hone
      have htd : d ≠ t := by
        rintro rfl
        simp only [State.left, List.count_singleton_self] at hone
        omega
      have hR : R t = 0 := by omega
      have hfree : t ∉ s.fs.freelist := fun hmem => by
        have := List.count_pos_iff.mpr hmem
        omega
      have hpage : (s.freed t).page d = s.page d := State.setPage_ne htd
      refine wp_bind.mpr (wp_kfree hplus fun h₁ => ?_)
      refine ih (by omega) (Own.congr h₁ (fun g => by rw [left_congr hpage]) rfl) fun s' h₂ he => ?_
      refine hQ s' h₂ ⟨((frame_setPage hR).trans (frame_setFree R _ _)).trans he.frame,
        fun g hg => ?_,
        fun j hj hjd x hx => ?_, he.failed⟩
      · rw [he.free g (List.mem_cons_of_mem _ hg)]
        refine State.setPage_ne ?_
        rintro rfl
        exact hfree hg
      · rcases Nat.eq_or_lt_of_le hj with rfl | hlt
        · obtain rfl : t = x := Option.some.inj (ht.symm.trans hx)
          rw [he.free t List.mem_cons_self]
          exact State.setPage_same ..
        · exact he.junk j hlt hjd x ((table_congr hpage j).trans hx)

/-- `freevm` gives back the whole address space, and leaves its page tables full of ones. -/
lemma wp_freevm_junk (h : Space sy T R d s)
    (hQ : ∀ s', Own sy T R s' → Frame R s s' → s'.failed = s.failed →
      (∀ j < NPDENTRIES, ∀ t, s.table d j = some t → s'.page t = fun _ => 1) → Q () s') :
    (freevm sy d).wp Q E s := by
  have hvalid : sy.Valid d := by
    refine Own.valid_of_pos h ?_
    have := mass_dir s d
    omega
  rw [freevm, if_neg (Nat.ne_of_gt hvalid.pos)]
  have hzero : pages 0 = 0 := by decide
  refine wp_bind.mpr (wp_deallocuvm h le_rfl (by decide) (fun _ => .inl (by rw [hzero]))
    fun s1 h₁ hc => ?_)
  have hbare : ∀ v < NUSER, s1.pte d v = none := fun v hv => by
    rw [hc.pte v (hv.trans (by decide)), hzero, if_pos ⟨Nat.zero_le v, hv⟩]
  have hown : Own sy T (fun g => s1.left d 0 g + R g) s1 :=
    Own.congr h₁ (fun g => by rw [mass_bare hbare]) rfl
  refine wp_bind.mpr (wp_freevmLoop (Nat.zero_add _) hown fun s2 h₂ he => ?_)
  have hR : R d = 0 := h.rest_zero (mass_dir s d)
  refine wp_kfree h₂ fun h₃ => hQ _ h₃ ?_ (he.failed.trans hc.failed) fun j hj t ht => ?_
  · exact (hc.frame.trans he.frame).trans ((frame_setPage hR).trans (frame_setFree R _ _))
  · have hne : t ≠ d := h.table_ne_dir hj ht
    exact (State.setPage_ne hne).trans (he.junk j (Nat.zero_le j) hj t ((hc.table j).trans ht))

/-- `freevm` gives back the whole address space. -/
lemma wp_freevm (h : Space sy T R d s)
    (hQ : ∀ s', Own sy T R s' → Frame R s s' → s'.failed = s.failed → Q () s') :
    (freevm sy d).wp Q E s :=
  wp_freevm_junk h fun s' h' hf hs _ => hQ s' h' hf hs

end Free

/-! ### Mapping the kernel -/

/-- The page tables that the address space does not have. -/
def State.lacking (s : State) (d : Nat) : Nat := occ (Finset.range NPDENTRIES) (s.table d) none

/-- An entry for page `v` of the kernel part: it is not for user code, and for the physical memory
it refers to the pages in order. -/
def KernelEntry (v e : Nat) : Prop :=
  e &&& PTE_U = 0 ∧ (v < NUSER + PHYSTOP / PGSIZE → frame e = v - NUSER)

/-- Pages `v`, …, `v + n - 1` were mapped, and the page tables for them made of free pages. -/
structure Ranged (R : Nat → Nat) (d v n : Nat) (s s' : State) : Prop where
  frame : Frame R s s'
  new : ∀ w, v ≤ w → w < v + n → ∃ e, s'.pte d w = some e ∧ KernelEntry w e
  pte : ∀ w < NPAGES, ¬ (v ≤ w ∧ w < v + n) → s'.pte d w = s.pte d w
  room : s'.fs.freelist.length + s.lacking d = s.fs.freelist.length + s'.lacking d
  failed : s'.failed = s.failed

/-- Of the page tables, those in `J` were added. -/
def Tabled (J : Nat → Prop) (d : Nat) (s s' : State) : Prop :=
  ∀ j, s'.table d j = none ↔ s.table d j = none ∧ ¬ J j

/-- There was no page for one of the tables in `J`. -/
structure Stuck (R : Nat → Nat) (J : Nat → Prop) (d : Nat) (s s' : State) : Prop where
  frame : Frame R s s'
  room : s.lacking d = s.fs.freelist.length + s'.lacking d
  lacks : ∃ j < NPDENTRIES, J j ∧ s'.table d j = none
  table : ∀ j, ¬ J j → s.table d j = none → s'.table d j = none
  failed : s'.failed = true

/-- The tables of the pages `v`, …, `v + n`. -/
def Spans (v n j : Nat) : Prop := v / 1024 ≤ j ∧ j ≤ (v + n) / 1024

section Kernel

variable {sy : Symbols} {T R : Nat → Nat} {s s' s'' : State} {d v n t pa perm : Nat}
  {J J' : Nat → Prop} {E : Option Panic → State → Prop}

lemma lacking_congr (h : ∀ j, s'.table d j = s.table d j) : s'.lacking d = s.lacking d :=
  occ_congr fun j _ => h j

lemma lacking_pos {i : Nat} (hi : i < NPDENTRIES) (h : s.table d i = none) : 0 < s.lacking d :=
  occ_pos (mem_range.mpr hi) h

lemma Walked.room_eq (h : Walked R d v t s s') (hv : v < NPAGES) :
    s'.fs.freelist.length + s.lacking d = s.fs.freelist.length + s'.lacking d := by
  have hocc := occ_change (S := Finset.range NPDENTRIES) (v := s.table d) (w := s'.table d)
    (b := none) (mem_range.mpr (div_lt_tables hv)) fun j _ hj => by rw [h.table, if_neg hj]
  rw [h.table, if_pos rfl, if_neg (show ¬ (some t = none) by simp)] at hocc
  rw [h.free, List.length_drop]
  unfold State.lacking
  by_cases ht : s.table d (v / 1024) = none
  · have := List.length_pos_iff.mpr (h.room ht)
    rw [if_pos ht] at hocc ⊢
    omega
  · rw [if_neg ht] at hocc ⊢
    omega

lemma Ranged.trans {m : Nat} (h : Ranged R d v m s s') (h' : Ranged R d (v + m) n s' s'')
    (hn : v + m < NPAGES) : Ranged R d v (m + n) s s'' where
  frame := h.frame.trans h'.frame
  new w hw hwn := by
    by_cases hlt : w < v + m
    · rw [h'.pte w (by omega) (by omega)]
      exact h.new w hw hlt
    · exact h'.new w (by omega) (by omega)
  pte w hw hout := by rw [h'.pte w hw (by omega), h.pte w hw (by omega)]
  room := by
    have h1 := h.room
    have h2 := h'.room
    omega
  failed := h'.failed.trans h.failed

lemma or_lt {a b : Nat} (ha : a < 2 ^ 32) (hb : b < 2 ^ 32) : a ||| b < 2 ^ 32 :=
  Nat.or_lt_two_pow ha hb

lemma Tabled.trans {J'' : Nat → Prop} (h : Tabled J d s s') (h' : Tabled J' d s' s'')
    (hJ : ∀ j, J'' j ↔ J j ∨ J' j) : Tabled J'' d s s'' := fun j => by
  rw [h' j, h j, hJ, not_or, and_assoc]

/-- What comes before does not matter for a run that gets stuck. -/
lemma Stuck.after {J'' : Nat → Prop} (hs : Stuck R J' d s' s'') (hf : Frame R s s')
    (h : Tabled J d s s')
    (hroom : s'.fs.freelist.length + s.lacking d = s.fs.freelist.length + s'.lacking d)
    (hJ : ∀ j, J'' j ↔ J j ∨ J' j) : Stuck R J'' d s s'' where
  frame := hf.trans hs.frame
  room := by
    have := hs.room
    omega
  lacks := by
    obtain ⟨j, hj, hJ', hnone⟩ := hs.lacks
    exact ⟨j, hj, (hJ j).mpr (.inr hJ'), hnone⟩
  table j hj hnone := by
    rw [hJ, not_or] at hj
    exact hs.table j hj.2 ((h j).mpr ⟨hnone, hj.1⟩)
  failed := hs.failed

lemma Stuck.mono (hs : Stuck R J d s s') (hJ : ∀ j, J j → J' j) : Stuck R J' d s s' where
  frame := hs.frame
  room := hs.room
  lacks := by
    obtain ⟨j, hj, hJj, hnone⟩ := hs.lacks
    exact ⟨j, hj, hJ j hJj, hnone⟩
  table j hj hnone := hs.table j (fun h => hj (hJ j h)) hnone
  failed := hs.failed

lemma spans_zero (v j : Nat) : Spans v 0 j ↔ j = v / 1024 := by
  unfold Spans
  omega

lemma spans_mono {v m n j : Nat} (h : m ≤ n) (hj : Spans v m j) : Spans v n j := by
  unfold Spans at *
  omega

lemma spans_succ (v n j : Nat) : Spans v (n + 1) j ↔ Spans v 0 j ∨ Spans (v + 1) n j := by
  unfold Spans
  omega

/-- `walkpgdir` finds no page for the table of page `v`. -/
lemma stuck_walk (hv : v < NPAGES) (ht : s.table d (v / 1024) = none) (hf : s.fs.freelist = []) :
    Stuck R (Spans v 0) d s { s with failed := true } where
  frame := frame_failed R s
  room := by
    rw [hf]
    exact (Nat.zero_add _).symm
  lacks := ⟨v / 1024, div_lt_tables hv, (spans_zero v _).mpr rfl, ht⟩
  table _ _ h := h
  failed := rfl

/-- A page of the kernel part is mapped through the table that `walkpgdir` has found. -/
lemma Walked.ranged {e : Nat} (h : Space sy T R d s') (hw : Walked R d v t s s') (hk : NUSER ≤ v)
    (hv : v < NPAGES) (he : e < 2 ^ 32) (hp : present e = true) (hkern : KernelEntry v e) :
    Space sy T R d (s'.setWord t (v % 1024) e) ∧
      Ranged R d v 1 s (s'.setWord t (v % 1024) e) ∧
      Tabled (Spans v 0) d s (s'.setWord t (v % 1024) e) := by
  have ht : s'.table d (v / 1024) = some t := by rw [hw.table, if_pos rfl]
  obtain ⟨htable, hpte⟩ := h.pte_setWord hv ht he
  have hR : R t = 0 := h.rest_zero (mass_table (div_lt_tables hv) ht)
  refine ⟨h.mapKernel hv hk ht he, ⟨hw.frame.trans (frame_setWord hR), fun w hvw hwv => ?_,
    fun w hw' hout => ?_, ?_, hw.failed⟩, fun j => ?_⟩
  · obtain rfl : w = v := by omega
    rw [hpte w hv, if_pos rfl, valid_of_present hp]
    exact ⟨e, rfl, hkern⟩
  · rw [hpte w hw', if_neg (by omega), hw.pte w hw']
  · rw [lacking_congr htable]
    exact hw.room_eq hv
  · rw [htable, hw.table, spans_zero]
    split_ifs with hj <;> simp [hj]

lemma kernelEntry_first (hpa : pa < 2 ^ 32)
    (hkern : ∀ i ≤ n, KernelEntry (v + i) ((pa + PGSIZE * i) % 2 ^ 32 ||| perm ||| PTE_P)) :
    KernelEntry v (pa ||| perm ||| PTE_P) := by
  have hzero := hkern 0 (Nat.zero_le n)
  rwa [Nat.mul_zero, Nat.add_zero, Nat.add_zero, Nat.mod_eq_of_lt hpa] at hzero

/-- The loop of `mappages` over pages of the kernel part that are not mapped. -/
lemma wp_mappagesLoop {s : State} {v n pa : Nat} {Q : Bool → State → Prop} (h : Space sy T R d s)
    (hk : NUSER ≤ v)
    (hn : v + n < NPAGES) (hpa : pa < 2 ^ 32) (hperm : perm < 2 ^ 32)
    (hkern : ∀ i ≤ n, KernelEntry (v + i) ((pa + PGSIZE * i) % 2 ^ 32 ||| perm ||| PTE_P))
    (hfresh : ∀ w, v ≤ w → w ≤ v + n → s.pte d w = none)
    (hok : ∀ s', Space sy T R d s' → Ranged R d v (n + 1) s s' →
      Tabled (Spans v n) d s s' → Q true s')
    (hfail : ∀ s', Space sy T R d s' → Stuck R (Spans v n) d s s' → Q false s') :
    (mappagesLoop d (PGSIZE * v) (PGSIZE * (v + n)) pa perm (n + 1)).wp Q E s := by
  have hv : v < NPAGES := by omega
  rw [mappagesLoop]
  refine wp_bind.mpr (wp_walkpgdir h hv (fun t s1 h₁ hw => ?_) fun ht hf => ?_)
  swap
  · exact hfail _ (h.congr rfl rfl)
      ((stuck_walk hv ht hf).mono fun j hj => spans_mono (Nat.zero_le n) hj)
  have ht : s1.table d (v / 1024) = some t := by rw [hw.table, if_pos rfl]
  have hword : ¬ present (s1.word t (v % 1024)) = true := by
    intro hp
    have hnone := (hw.pte v hv).trans (hfresh v le_rfl (by omega))
    rw [pte_of_table ht, valid_of_present hp] at hnone
    exact absurd hnone (by simp)
  obtain ⟨h₂, hr, htab⟩ := hw.ranged h₁ hk hv (or_lt (or_lt hpa hperm)
    (show PTE_P < 2 ^ 32 by decide))
    (present_or _) (kernelEntry_first hpa hkern)
  simp only [wp_read, if_neg hword, wp_write]
  cases n with
  | zero =>
    rw [Nat.add_zero, if_pos rfl]
    exact hok _ h₂ hr htab
  | succ n =>
    have hrest : ∀ i ≤ n, KernelEntry (v + 1 + i)
        (((pa + PGSIZE) % 2 ^ 32 + PGSIZE * i) % 2 ^ 32 ||| perm ||| PTE_P) := fun i hi => by
      have := hkern (i + 1) (by omega)
      rwa [Nat.mod_add_mod, show pa + PGSIZE + PGSIZE * i = pa + PGSIZE * (i + 1) by
        simp only [PGSIZE]; omega, show v + 1 + i = v + (i + 1) by omega]
    rw [if_neg (page_ne_last v n), next_page (by omega), show v + (n + 1) = v + 1 + n by omega]
    refine wp_mappagesLoop h₂ (by omega) (by omega) (Nat.mod_lt _ (by decide)) hperm hrest
      (fun w hw hw' => ?_) (fun s' h' hr' htab' => ?_) fun s' h' hs => ?_
    · rw [hr.pte w (by omega) (by omega)]
      exact hfresh w (by omega) (by omega)
    · have := hr.trans hr' (by omega)
      rw [Nat.add_comm 1] at this
      exact hok s' h' this (htab.trans htab' (spans_succ v n))
    · exact hfail s' h' (hs.after hr.frame htab hr.room (spans_succ v n))
termination_by n

/-- The loop of `mappages` is over the pages from that of `va` to that of the last byte. -/
lemma mappages_eq {va size : Nat} (hsize : 0 < size) (hend : va + size ≤ 2 ^ 32)
    (hv : va / PGSIZE = v) (hn : (va + size - 1) / PGSIZE = v + n) :
    mappages d va size pa perm =
      mappagesLoop d (PGSIZE * v) (PGSIZE * (v + n)) pa perm (n + 1) := by
  have ha : PGROUNDDOWN va = PGSIZE * v := by rw [PGROUNDDOWN, hv, Nat.mul_comm]
  have hlast : PGROUNDDOWN ((va + size + 2 ^ 32 - 1) % 2 ^ 32) = PGSIZE * (v + n) := by
    have hsum : va + size + 2 ^ 32 - 1 = va + size - 1 + 2 ^ 32 := by omega
    rw [hsum, Nat.add_mod_right, Nat.mod_eq_of_lt (by omega), PGROUNDDOWN, hn, Nat.mul_comm]
  have hcount : (PGSIZE * (v + n) + 2 ^ 32 - PGSIZE * v) % 2 ^ 32 / PGSIZE = n := by
    have hdiff : PGSIZE * (v + n) + 2 ^ 32 - PGSIZE * v = PGSIZE * n + 2 ^ 32 := by
      rw [Nat.mul_add]
      omega
    have hlt : PGSIZE * n < 2 ^ 32 := by
      simp only [PGSIZE] at *
      omega
    rw [hdiff, Nat.add_mod_right, Nat.mod_eq_of_lt hlt, Nat.mul_div_cancel_left _ (by decide)]
  rw [mappages, ha, hlast, hcount]

lemma mappages_range (hn : v + n < NPAGES) :
    mappages d (PGSIZE * v) (PGSIZE * (n + 1)) pa perm =
      mappagesLoop d (PGSIZE * v) (PGSIZE * (v + n)) pa perm (n + 1) := by
  apply mappages_eq
  · simp only [PGSIZE]
    omega
  · simp only [PGSIZE, NPAGES] at *
    omega
  · simp only [PGSIZE]
    omega
  · simp only [PGSIZE]
    omega

/-- The entries cover pages of the kernel part from `v` on, one after the other. -/
def Covers : Nat → List Kmap → Prop
  | _, [] => True
  | v, k :: ks => ∃ w n, v ≤ w ∧ w + n < NPAGES ∧ k.virt = PGSIZE * w ∧
      (k.physEnd + 2 ^ 32 - k.physStart) % 2 ^ 32 = PGSIZE * (n + 1) ∧ k.physStart < 2 ^ 32 ∧
      k.perm < 2 ^ 32 ∧
      (∀ i ≤ n, KernelEntry (w + i) ((k.physStart + PGSIZE * i) % 2 ^ 32 ||| k.perm ||| PTE_P)) ∧
      Covers (w + n + 1) ks

/-- Page `g` with the permissions of the kernel. -/
lemma kernelEntry {g : Nat} (hperm : perm = 0 ∨ perm = PTE_W)
    (hg : v < NUSER + PHYSTOP / PGSIZE → g = v - NUSER) :
    KernelEntry v (PGSIZE * g ||| perm ||| PTE_P) := by
  have hflags : perm ||| PTE_P = 1 ∨ perm ||| PTE_P = 3 := by
    rcases hperm with rfl | rfl
    · exact .inl rfl
    · exact .inr rfl
  have hlt : perm ||| PTE_P < PGSIZE := by
    simp only [PGSIZE]
    omega
  rw [Nat.or_assoc, page_or g hlt]
  refine ⟨(and_user _).mpr ?_, fun hv => by rw [frame_add g hlt, hg hv]⟩
  simp only [PGSIZE]
  omega

/-- The entries for pages from `w` on of physical memory from page `f` on. -/
lemma kernelEntry_range {w f : Nat} (hf : f + n < NPAGES) (hperm : perm = 0 ∨ perm = PTE_W)
    (hg : w < NUSER + PHYSTOP / PGSIZE → f = w - NUSER) (hw : NUSER ≤ w) (i : Nat) (hi : i ≤ n) :
    KernelEntry (w + i) ((PGSIZE * f + PGSIZE * i) % 2 ^ 32 ||| perm ||| PTE_P) := by
  rw [← Nat.mul_add, Nat.mod_eq_of_lt]
  · exact kernelEntry hperm fun h => by have := hg (by omega); omega
  · simp only [PGSIZE, NPAGES] at *
    omega

/-- The table `kmap`, when there is memory above the kernel. -/
lemma covers_kmap (hfin : sy.data < KERNBASE + PHYSTOP) : Covers NUSER (kmap sy) := by
  have htext := sy.text
  obtain ⟨c, hc⟩ : ∃ c, sy.data = PGSIZE * c :=
    ⟨_, (Nat.mul_div_cancel' (Nat.dvd_of_mod_eq_zero sy.aligned)).symm⟩
  rw [hc] at hfin htext
  have hphys : sy.data - KERNBASE = PGSIZE * (c - NUSER) := by
    rw [hc]
    simp only [KERNBASE, PGSIZE, NUSER]
    omega
  refine ⟨NUSER, 255, le_rfl, by decide, by decide, by decide, by decide, by decide,
    kernelEntry_range (f := 0) (by decide) (.inr rfl) (by decide) le_rfl, ?_⟩
  simp only [KERNLINK, KERNBASE, EXTMEM, PHYSTOP, PGSIZE] at hfin htext
  refine ⟨524544, c - 524545, by decide, ?_, show KERNLINK = _ by decide, ?_,
    show KERNLINK - KERNBASE < _ by decide, show 0 < _ by decide,
    kernelEntry_range (f := 256) ?_ (.inl rfl) (by decide) (by decide), ?_⟩
  · simp only [NPAGES]
    omega
  · simp only [hc, KERNLINK, KERNBASE, EXTMEM, PGSIZE]
    omega
  · simp only [NPAGES]
    omega
  refine ⟨c, 581632 - c - 1, by omega, ?_, hc, ?_, ?_, show PTE_W < _ by decide, ?_, ?_⟩
  · simp only [NPAGES]
    omega
  · simp only [hc, KERNBASE, PHYSTOP, PGSIZE]
    omega
  · simp only [hc, KERNBASE, PGSIZE]
    omega
  · dsimp only
    rw [hphys]
    refine kernelEntry_range ?_ (.inr rfl) (fun _ => rfl) ?_
    · simp only [NPAGES, NUSER]
      omega
    · simp only [NUSER]
      omega
  · exact ⟨1040384, 8191, by omega, by decide, by decide, by decide, by decide, by decide,
      kernelEntry_range (f := 1040384) (by decide) (.inr rfl) (by decide) (by decide), trivial⟩

/-- The pages that entries of `kmap` cover. -/
def pagesOf : List Kmap → Nat → Prop
  | [], _ => False
  | k :: ks, w => k.virt ≤ PGSIZE * w ∧
      PGSIZE * w < k.virt + (k.physEnd + 2 ^ 32 - k.physStart) % 2 ^ 32 ∨ pagesOf ks w

/-- The tables of the pages that entries of `kmap` cover. -/
def tablesOf : List Kmap → Nat → Prop
  | [], _ => False
  | k :: ks, j => k.virt / 2 ^ 22 ≤ j ∧
      j ≤ (k.virt + (k.physEnd + 2 ^ 32 - k.physStart) % 2 ^ 32 - 1) / 2 ^ 22 ∨ tablesOf ks j

/-- The tables for the kernel: 56 for the physical memory and 8 for the devices. -/
def KernelTable (j : Nat) : Prop := 512 ≤ j ∧ j < 568 ∨ 1016 ≤ j ∧ j < 1024

instance : DecidablePred KernelTable := fun _ => inferInstanceAs (Decidable (_ ∨ _))

lemma tablesOf_cons (k : Kmap) (ks : List Kmap) {w : Nat} (hvirt : k.virt = PGSIZE * w)
    (hsize : (k.physEnd + 2 ^ 32 - k.physStart) % 2 ^ 32 = PGSIZE * (n + 1)) (j : Nat) :
    tablesOf (k :: ks) j ↔ Spans w n j ∨ tablesOf ks j := by
  rw [tablesOf, hvirt, hsize]
  refine or_congr_left ?_
  simp only [Spans, PGSIZE]
  omega

lemma tablesOf_kmap (hfin : sy.data < KERNBASE + PHYSTOP) (j : Nat) :
    tablesOf (kmap sy) j ↔ KernelTable j := by
  have htext := sy.text
  simp only [kmap, tablesOf, KernelTable, KERNLINK, KERNBASE, EXTMEM, PHYSTOP, DEVSPACE,
    or_false] at *
  constructor
  · omega
  · intro hj
    rcases hj with hj | hj
    · by_cases hd : j < sy.data / 2 ^ 22
      · exact .inr (.inl (by omega))
      · exact .inr (.inr (.inl (by omega)))
    · exact .inr (.inr (.inr (by omega)))

lemma pagesOf_cons (k : Kmap) (ks : List Kmap) {w : Nat} (hvirt : k.virt = PGSIZE * w)
    (hsize : (k.physEnd + 2 ^ 32 - k.physStart) % 2 ^ 32 = PGSIZE * (n + 1)) (x : Nat) :
    pagesOf (k :: ks) x ↔ (w ≤ x ∧ x ≤ w + n) ∨ pagesOf ks x := by
  rw [pagesOf, hvirt, hsize]
  refine or_congr_left ?_
  simp only [PGSIZE]
  omega

lemma pagesOf_kmap (hfin : sy.data < KERNBASE + PHYSTOP) (w : Nat) :
    pagesOf (kmap sy) w ↔ NUSER ≤ w ∧ w < NUSER + PHYSTOP / PGSIZE ∨ 1040384 ≤ w ∧ w < NPAGES := by
  have htext := sy.text
  have haligned := sy.aligned
  simp only [kmap, pagesOf, KERNLINK, KERNBASE, EXTMEM, PHYSTOP, DEVSPACE, NUSER, NPAGES, PGSIZE,
    or_false] at *
  omega

/-- The kernel part of an address space: the physical memory in order, and nothing for user code. -/
structure KernelMap (s : State) (d : Nat) : Prop where
  user : ∀ v, NUSER ≤ v → v < NPAGES → s.user d v = none
  leaf : ∀ g, g < PHYSTOP / PGSIZE → s.leaf d (NUSER + g) = some g

/-- The kernel was mapped. -/
structure Kernel (R : Nat → Nat) (d : Nat) (ks : List Kmap) (s s' : State) : Prop where
  frame : Frame R s s'
  pte : ∀ w < NPAGES, ¬ pagesOf ks w → s'.pte d w = s.pte d w
  new : ∀ w < NPAGES, pagesOf ks w → ∃ e, s'.pte d w = some e ∧ KernelEntry w e
  room : s'.fs.freelist.length + s.lacking d = s.fs.freelist.length + s'.lacking d
  failed : s'.failed = s.failed

lemma wp_setupkvmLoop {Q : Bool → State → Prop} {ks : List Kmap} (hks : Covers v ks)
    (h : Space sy T R d s) (hk : NUSER ≤ v) (hfresh : ∀ w < NPAGES, v ≤ w → s.pte d w = none)
    (hok : ∀ s', Space sy T R d s' → Kernel R d ks s s' → Tabled (tablesOf ks) d s s' → Q true s')
    (hfail : ∀ s', Space sy T R d s' → Stuck R (tablesOf ks) d s s' → Q false s') :
    (setupkvmLoop d ks).wp Q E s := by
  induction ks generalizing v s with
  | nil =>
    refine hok s h ⟨Frame.refl R s, fun _ _ _ => rfl, fun _ _ hw => hw.elim, rfl, rfl⟩ fun j => ?_
    simp [tablesOf]
  | cons k ks ih =>
    obtain ⟨w, n, hvw, hwn, hvirt, hsize, hphys, hperm, hkern, hrest⟩ := hks
    have hspans := tablesOf_cons k ks hvirt hsize
    have hpages := pagesOf_cons k ks hvirt hsize
    rw [setupkvmLoop, hvirt, hsize, mappages_range hwn]
    refine wp_bind.mpr (wp_mappagesLoop h (by omega) hwn hphys hperm hkern
      (fun x hx hx' => hfresh x (by omega) (by omega)) (fun s1 h₁ hr htab => ?_) fun s' h' hs => ?_)
    · refine ih hrest h₁ (by omega) (fun x hx hle => ?_) (fun s' h' hr' htab' => hok s' h' ?_ ?_)
        fun s' h' hs => hfail s' h' (hs.after hr.frame htab hr.room hspans)
      · rw [hr.pte x hx (by omega)]
        exact hfresh x hx (by omega)
      · refine ⟨hr.frame.trans hr'.frame, fun x hx hout => ?_, fun x hx hin => ?_, ?_,
          hr'.failed.trans hr.failed⟩
        · rw [hpages, not_or] at hout
          rw [hr'.pte x hx hout.2, hr.pte x hx (by omega)]
        · by_cases hlater : pagesOf ks x
          · exact hr'.new x hx hlater
          · rw [hr'.pte x hx hlater]
            have hx' := ((hpages x).mp hin).resolve_right hlater
            exact hr.new x hx'.1 (by omega)
        · have h1 := hr.room
          have h2 := hr'.room
          omega
      · exact htab.trans htab' hspans
    · exact hfail s' h' (hs.mono fun j hj => (hspans j).mpr (.inl hj))

/-- A page of zeros is a directory without page tables. -/
lemma table_zero (hz : s.page d = fun _ => 0) (j : Nat) : s.table d j = none := by
  have hword : s.word d j = 0 := by
    rw [State.word, hz]
    rfl
  rw [table_eq_none, hword, present_zero]

/-- A page of zeros is an address space. -/
lemma space_zero (h : Own sy T (plus R d) s) (hz : s.page d = fun _ => 0) :
    Space sy T R d s ∧ (∀ j, s.table d j = none) := by
  have htable := table_zero hz
  refine ⟨Own.congr h (fun g => ?_) rfl, htable⟩
  rw [mass_bare fun v _ => pte_of_no_table (htable _)]
  have hocc : occ (Finset.Ico 0 NPDENTRIES) (s.table d) (some g) = 0 :=
    occ_eq_zero fun j _ => by rw [htable]; simp
  simp only [State.left, plus, hocc]
  omega

lemma card_kernelTable : ((Finset.range NPDENTRIES).filter KernelTable).card = 64 := by
  have hset : (Finset.range NPDENTRIES).filter KernelTable = Finset.Ico 512 568 ∪ Finset.Ico
      1016 1024 := by
    ext j
    simp only [mem_filter, mem_range, mem_union, mem_Ico, KernelTable, NPDENTRIES]
    omega
  have hdisj : Disjoint (Finset.Ico 512 568) (Finset.Ico 1016 1024) := by
    rw [disjoint_left]
    intro j
    simp only [mem_Ico]
    omega
  rw [hset, card_union_of_disjoint hdisj, Nat.card_Ico, Nat.card_Ico]

/-- Apart from those that are there the tables lack. -/
lemma lacking_add : s.lacking d + ((Finset.range NPDENTRIES).filter fun j =>
    s.table d j ≠ none).card =
    NPDENTRIES := by
  unfold State.lacking occ
  rw [card_filter_add_card_filter_not, card_range]

lemma lacking_kernel (h : ∀ j < NPDENTRIES, s.table d j = none ↔ ¬ KernelTable j) :
    s.lacking d = 960 := by
  have hadd := lacking_add (s := s) (d := d)
  rw [filter_congr (q := KernelTable) fun j hj => by rw [ne_eq, h j (mem_range.mp hj), not_not],
    card_kernelTable] at hadd
  simp only [NPDENTRIES] at hadd
  omega

lemma lacking_stuck {j : Nat} (hj : j < NPDENTRIES) (hJ : KernelTable j)
    (hnone : s.table d j = none)
    (h : ∀ j < NPDENTRIES, ¬ KernelTable j → s.table d j = none) : 960 < s.lacking d := by
  have hadd := lacking_add (s := s) (d := d)
  have hlt : ((Finset.range NPDENTRIES).filter fun j => s.table d j ≠ none).card < 64 := by
    rw [← card_kernelTable]
    refine card_lt_card ⟨fun i hi => ?_, fun hsub => ?_⟩
    · obtain ⟨hi, hne⟩ := mem_filter.mp hi
      refine mem_filter.mpr ⟨hi, ?_⟩
      by_contra hK
      exact hne (h i (mem_range.mp hi) hK)
    · exact (mem_filter.mp (hsub (mem_filter.mpr ⟨mem_range.mpr hj, hJ⟩))).2 hnone
  simp only [NPDENTRIES] at *
  omega

/-- `setupkvm` makes an address space without user pages from 65 free pages. Without a free page it
does nothing; with less than 65 it fails with the directory, and what tables there are, taken. -/
lemma wp_setupkvm_exact {Q : Option Nat → State → Prop} (h : Own sy T R s)
    (hok : ∀ d s', Space sy T R d s' → Frame R s s' → (∀ v < NUSER, s'.pte d v = none) →
      KernelMap s' d → s.fs.freelist.head? = some d →
      (∀ j < NPDENTRIES, s'.table d j = none ↔ ¬ KernelTable j) → s'.failed = s.failed →
      s'.fs.freelist.length + 65 = s.fs.freelist.length → Q (some d) s')
    (hempty : s.fs.freelist = [] → Q none { s with failed := true })
    (hstuck : ∀ d s', d ∈ s.fs.freelist → Space sy T R d s' → Frame R s s' → s'.failed = true →
      s.fs.freelist.length < 65 → Q none s') :
    (setupkvm sy).wp Q E s := by
  rw [setupkvm]
  refine wp_bind.mpr (wp_kalloc h (fun d l hf h₁ hvalid hR => ?_) hempty)
  have hdata := hvalid.data_lt
  obtain ⟨s1, hs1⟩ : ∃ s1, s1 = (s.setFree l).setPage d fun _ => 0 := ⟨_, rfl⟩
  have h₂ : Own sy T (plus R d) s1 := Own.congr h₁ (fun _ => rfl) (by rw [hs1]; rfl)
  have hfr : Frame R s s1 := by
    rw [hs1]
    exact (frame_setFree R s l).trans (frame_setPage hR)
  obtain ⟨h₃, htable⟩ := space_zero h₂ (by rw [hs1, State.setPage_same])
  have hlack : s1.lacking d = NPDENTRIES := by
    unfold State.lacking occ
    rw [filter_true_of_mem fun j _ => htable j, card_range]
  have hlen : s1.fs.freelist.length + 1 = s.fs.freelist.length := by rw [hf, hs1]; rfl
  have hfailed : s1.failed = s.failed := by rw [hs1]; rfl
  simp only [wp_memset]
  rw [if_neg (by decide), ← hs1]
  refine wp_bind.mpr (wp_setupkvmLoop (covers_kmap hdata) h₃ le_rfl
    (fun w _ _ => pte_of_no_table (htable _)) (fun s' h' hk htab => ?_) fun s' h' hs => ?_)
  · have hkernel : ∀ j < NPDENTRIES, s'.table d j = none ↔ ¬ KernelTable j := fun j _ => by
      rw [htab j, tablesOf_kmap hdata]
      exact and_iff_right (htable j)
    have hpages := pagesOf_kmap hdata
    have hnone : ∀ v < NPAGES, ¬ pagesOf (kmap sy) v → s'.pte d v = none := fun v hv hout => by
      rw [hk.pte v hv hout]
      exact pte_of_no_table (htable _)
    refine hok d s' h' (hfr.trans hk.frame) (fun v hv => ?_) ⟨fun v hv hvp => ?_, fun g hg => ?_⟩
      (by rw [hf]; rfl) hkernel (hk.failed.trans hfailed) ?_
    · refine hnone v (hv.trans (by decide)) ?_
      rw [hpages]
      simp only [NUSER] at *
      omega
    · by_cases hin : pagesOf (kmap sy) v
      · obtain ⟨e, he, huser, -⟩ := hk.new v hvp hin
        rw [State.user, he, Option.bind_some, if_pos huser]
      · rw [State.user, hnone v hvp hin, Option.bind_none]
    · have hgp : NUSER + g < NPAGES := by
        simp only [NUSER, NPAGES, PHYSTOP, PGSIZE] at *
        omega
      obtain ⟨e, he, -, hframe⟩ := hk.new (NUSER + g) hgp ((hpages _).mpr (.inl (by omega)))
      rw [State.leaf, he, Option.map_some, hframe (by omega), Nat.add_sub_cancel_left]
    · have h1 := hk.room
      have h2 := lacking_kernel hkernel
      simp only [NPDENTRIES] at hlack
      omega
  · obtain ⟨j, hj, hJ, hnone⟩ := hs.lacks
    refine hstuck d s' (by rw [hf]; exact List.mem_cons_self) h' (hfr.trans hs.frame) hs.failed ?_
    have h1 := hs.room
    have h2 := lacking_stuck hj ((tablesOf_kmap hdata j).mp hJ) hnone fun i _ hi =>
      hs.table i (fun hJ => hi ((tablesOf_kmap hdata i).mp hJ)) (htable i)
    simp only [NPDENTRIES] at hlack
    omega

/-- `setupkvm` makes an address space without user pages, and does so if there is a page for the
directory and each of its entries. -/
lemma wp_setupkvm {Q : Option Nat → State → Prop} (h : Own sy T R s)
    (hok : ∀ d s', Space sy T R d s' → Frame R s s' → (∀ v < NUSER, s'.pte d v = none) →
      KernelMap s' d → s'.failed = s.failed →
      s'.fs.freelist.length + NPDENTRIES + 1 = s.fs.freelist.length + s'.lacking d → Q (some d) s')
    (hfail : ∀ s', s'.failed = true → s.fs.freelist.length ≤ NPDENTRIES → Q none s') :
    (setupkvm sy).wp Q E s := by
  refine wp_setupkvm_exact h
    (fun d s' h' hf hnone hkern _ htable hs hlen => hok d s' h' hf hnone hkern hs ?_)
    (fun hf => hfail _ rfl (by rw [hf]; exact Nat.zero_le _)) fun _ s' _ _ _ hs hlen =>
      hfail s' hs ?_
  · rw [lacking_kernel htable]
    simp only [NPDENTRIES]
    omega
  · simp only [NPDENTRIES]
    omega

end Kernel

/-! ### Code that only takes pages -/

/-- A relation between states that neither taking a page nor writing to one breaks. -/
structure Grants (J : State → State → Prop) : Prop where
  refl : ∀ s, J s s
  page : ∀ s g b, J s (s.setPage g b)
  kalloc : Vm.kalloc.acts J

section Grants

variable {α : Type} {J : State → State → Prop} {d g : Nat} (hJ : Grants J)

include hJ

lemma Grants.read {f : State → α} : (Vm.read f).acts J := ⟨fun s _ => hJ.refl s, fun _ => trivial⟩

lemma Grants.setPage {b : State → Bytes} : (write fun s => s.setPage g (b s)).acts J :=
  ⟨fun s _ => hJ.page s g (b s), fun _ => trivial⟩

lemma Grants.walkpgdir {va : Nat} {alloc : Bool} : (walkpgdir d va alloc).acts J := by
  refine acts_bind hJ.read fun pde => ?_
  split_ifs
  · trivial
  · trivial
  · refine acts_bind hJ.kalloc fun r => ?_
    cases r with
    | none => trivial
    | some t => exact acts_bind hJ.setPage fun _ => acts_bind hJ.setPage fun _ => trivial

lemma Grants.mappagesLoop {last perm : Nat} : ∀ n a pa, (mappagesLoop d a last pa perm n).acts J
  | 0, _, _ => trivial
  | n + 1, a, pa => by
    refine acts_bind hJ.walkpgdir fun r => ?_
    cases r with
    | none => trivial
    | some x =>
      refine acts_bind hJ.read fun pte => ?_
      split_ifs
      · trivial
      · exact acts_bind hJ.setPage fun _ => trivial
      · exact acts_bind hJ.setPage fun _ => Grants.mappagesLoop n _ _

lemma Grants.mappages {va size pa perm : Nat} : (mappages d va size pa perm).acts J :=
  hJ.mappagesLoop _ _ _

lemma Grants.allocuvmLoop {newsz : Nat} : ∀ n a, (allocuvmLoop d newsz a n).acts J
  | 0, _ => trivial
  | n + 1, a => by
    rw [Vm.allocuvmLoop]
    split_ifs
    · refine acts_bind hJ.kalloc fun r => ?_
      cases r with
      | none => trivial
      | some mem =>
        exact acts_bind hJ.setPage fun _ => acts_bind hJ.mappages fun _ => Grants.allocuvmLoop n _
    · trivial

lemma Grants.setupkvmLoop : ∀ ks, (setupkvmLoop d ks).acts J
  | [] => trivial
  | k :: ks => by
    refine acts_bind hJ.mappages fun r => ?_
    cases r with
    | false => trivial
    | true => exact Grants.setupkvmLoop ks

lemma Grants.setupkvm {sy : Symbols} : (setupkvm sy).acts J := by
  refine acts_bind hJ.kalloc fun r => ?_
  cases r with
  | none => trivial
  | some d =>
    refine acts_bind hJ.setPage fun _ => ?_
    split_ifs
    · trivial
    · refine acts_bind (hJ.setupkvmLoop _) fun r => ?_
      cases r <;> trivial

end Grants

/-- Pages were taken from the front of the free list. -/
def Popped (s s' : State) : Prop := s'.fs.freelist <:+ s.fs.freelist

section Popped

variable {sy : Symbols} {T R : Nat → Nat} {s : State} {E : Option Panic → State → Prop}

lemma grants_popped : Grants Popped := by
  refine ⟨fun _ => List.suffix_rfl, fun _ _ _ => List.suffix_rfl, fun s _ => ?_, fun _ => trivial⟩
  unfold Popped
  dsimp only
  split
  next => exact List.suffix_rfl
  next g l hfree =>
    rw [hfree]
    exact List.suffix_cons g l

/-- With 65 free pages, `setupkvm` takes the first 65. -/
lemma wp_setupkvm_drop {Q : Option Nat → State → Prop} (h : Own sy T R s)
    (hlong : 65 ≤ s.fs.freelist.length)
    (hok : ∀ d s', Space sy T R d s' → Frame R s s' → (∀ v < NUSER, s'.pte d v = none) →
      KernelMap s' d → s.fs.freelist.head? = some d →
      (∀ j < NPDENTRIES, s'.table d j = none ↔ ¬ KernelTable j) → s'.failed = s.failed →
      s'.fs.freelist = s.fs.freelist.drop 65 → Q (some d) s') :
    (setupkvm sy).wp Q E s := by
  have hpopped : (setupkvm sy).wp (fun _ s' => Popped s s') (fun _ s' => Popped s s') s :=
    wp_of_acts (R := Popped) (fun _ => List.suffix_rfl)
      (fun _ _ _ h1 h2 => List.IsSuffix.trans h2 h1)
      grants_popped.setupkvm s
  have hexact : (setupkvm sy).wp (fun r s' => Popped s s' → Q r s') E s := by
    refine wp_setupkvm_exact h (fun d s' h' hf hbare hkern hhead htable hs hlen hpop => ?_)
      (fun hempty => ?_) fun _ _ _ _ _ _ hlen => absurd hlen (by omega)
    · refine hok d s' h' hf hbare hkern hhead htable hs ?_
      rw [List.suffix_iff_eq_drop.mp hpop]
      congr 1
      omega
    · rw [hempty] at hlong
      exact absurd hlong (by decide)
  exact wp_mono (wp_and hexact hpopped) (fun _ _ hpost => hpost.1 hpost.2) fun _ _ he => he

end Popped

/-! ### Runs in which `kalloc` does not fail -/

/-- No `kalloc` has failed so far, and no segment has wrapped. -/
structure Clean (s : State) : Prop where
  failed : s.failed = false
  wrapped : s.wrapped = false

/-- The flags are never cleared. -/
structure Sticky (s s' : State) : Prop where
  failed : s'.failed = false → s.failed = false
  wrapped : s'.wrapped = false → s.wrapped = false

/-- Nothing is said about a run that stops. -/
abbrev AnyPanic : Option Panic → State → Prop := fun _ _ => True

section Sticky

variable {α β : Type} {s : State} {q : V α} {f : α → V β} {Q : α → State → Prop}
  {sy : Symbols} {d g p sz : Nat}

lemma not_clean (h : s.failed = true) : ¬ Clean s := fun hc => by
  have := hc.failed
  rw [h] at this
  exact absurd this (by decide)

lemma wp_sticky (hq : q.acts Sticky) : q.wp (fun _ s' => Sticky s s') AnyPanic s :=
  wp_mono (wp_of_acts (fun _ => ⟨id, id⟩)
    (fun _ _ _ h1 h2 => ⟨h1.failed ∘ h2.failed, h1.wrapped ∘ h2.wrapped⟩)
    hq s) (fun _ _ hst => hst) fun _ _ _ => trivial

lemma Sticky.clean {s' : State} (h : Sticky s s') (hc : Clean s') : Clean s :=
  ⟨h.failed hc.failed, h.wrapped hc.wrapped⟩

/-- After a failure nothing need be shown. -/
lemma wp_dirty (hq : q.acts Sticky) (h : ¬ Clean s) :
    q.wp (fun a s' => Clean s' → Q a s') AnyPanic s :=
  wp_mono (wp_sticky hq) (fun _ _ hst hc => absurd (hst.clean hc) h) fun _ _ _ => trivial

/-- The rule for a call in a run of which only the clean ones matter. -/
lemma wp_clean {P : α → State → Prop} {Q : β → State → Prop}
    (hq : q.wp (fun a s' => Clean s' → P a s') AnyPanic s) (hf : ∀ a, (f a).acts Sticky)
    (h : ∀ a s', Clean s' → P a s' → (f a).wp (fun b s'' => Clean s'' → Q b s'') AnyPanic s') :
    (q >>= f).wp (fun b s'' => Clean s'' → Q b s'') AnyPanic s := by
  refine wp_call hq fun a s' hP => ?_
  by_cases hc : Clean s'
  · exact h a s' hc (hP hc)
  · exact wp_dirty (hf a) hc

lemma sticky_write {u : State → State} (h : ∀ s, Sticky s (u s)) : (write u).acts Sticky :=
  ⟨fun s _ => h s, fun _ => trivial⟩

lemma sticky_read {f : State → α} : (read f).acts Sticky := ⟨fun _ _ => ⟨id, id⟩, fun _ => trivial⟩

lemma sticky_onFs (q : K α) : (onFs q).acts Sticky := by
  unfold onFs
  induction q with
  | ret a => trivial
  | panic e => trivial
  | act l g u k ih => exact ⟨fun _ _ => ⟨id, id⟩, fun s => ih s.fs⟩

lemma sticky_memset {c : Byte} : (memset g c).acts Sticky := sticky_write fun _ => ⟨id, id⟩

lemma sticky_kalloc : kalloc.acts Sticky := by
  refine ⟨fun s _ => ?_, fun _ => trivial⟩
  cases hf : s.fs.freelist with
  | nil => exact ⟨by simp only [hf]; simp, by simp only [hf]; exact id⟩
  | cons g l => exact ⟨by simp only [hf]; exact id, by simp only [hf]; exact id⟩

lemma sticky_setWord {i : Nat} {e : State → Nat} :
    (write fun s => s.setWord g i (e s)).acts Sticky :=
  sticky_write fun _ => ⟨id, id⟩

lemma sticky_kfree : (kfree sy g).acts Sticky :=
  acts_ite trivial (acts_bind sticky_memset fun _ => sticky_write fun _ => ⟨id, id⟩)

lemma grants_sticky : Grants Sticky := ⟨fun _ => ⟨id, id⟩, fun _ _ _ => ⟨id, id⟩, sticky_kalloc⟩

lemma sticky_walkpgdir {va : Nat} {alloc : Bool} : (walkpgdir d va alloc).acts Sticky :=
  grants_sticky.walkpgdir

lemma sticky_mappages {va size pa perm : Nat} : (mappages d va size pa perm).acts Sticky :=
  grants_sticky.mappages

lemma sticky_deallocuvmLoop {oldsz : Nat} : ∀ n a, (deallocuvmLoop sy d oldsz a n).acts Sticky
  | 0, _ => trivial
  | n + 1, _ => acts_ite (acts_option sticky_walkpgdir (sticky_deallocuvmLoop n _) fun _ =>
    acts_bind sticky_read fun _ => acts_ite (acts_ite trivial <| acts_bind sticky_kfree fun _ =>
      acts_bind sticky_setWord fun _ => sticky_deallocuvmLoop n _)
        (sticky_deallocuvmLoop n _)) trivial

lemma sticky_deallocuvm {oldsz newsz : Nat} : (deallocuvm sy d oldsz newsz).acts Sticky :=
  acts_ite trivial (acts_bind (sticky_deallocuvmLoop ..) fun _ => trivial)

lemma sticky_allocuvm {oldsz newsz : Nat} : (allocuvm sy d oldsz newsz).acts Sticky :=
  acts_ite trivial <| acts_ite trivial <| acts_bool (grants_sticky.allocuvmLoop _ _)
    (acts_bind sticky_deallocuvm fun _ => trivial) trivial

lemma sticky_freevmLoop : ∀ n i, (freevmLoop sy d i n).acts Sticky
  | 0, _ => trivial
  | n + 1, _ => acts_bind sticky_read fun _ => acts_ite
    (acts_bind sticky_kfree fun _ => sticky_freevmLoop n _) (sticky_freevmLoop n _)

lemma sticky_freevm : (freevm sy d).acts Sticky :=
  acts_ite trivial <| acts_bind sticky_deallocuvm fun _ => acts_bind (sticky_freevmLoop ..) fun _ =>
    sticky_kfree

lemma sticky_switchuvm : (switchuvm p).acts Sticky :=
  acts_bind sticky_read fun _ => acts_ite trivial trivial

lemma sticky_setSize : (setSize p sz).acts Sticky :=
  acts_bind (sticky_write fun _ => ⟨id, id⟩) fun _ =>
    acts_bind sticky_switchuvm fun _ => trivial

end Sticky

/-! ### `copyuvm` -/

section Copy

variable {d d' sz : Nat}

lemma sticky_copyuvmLoop : ∀ n i, (copyuvmLoop d d' sz i n).acts Sticky
  | 0, _ => trivial
  | n + 1, _ => acts_ite (acts_option sticky_walkpgdir trivial fun _ => acts_bind sticky_read
    fun _ => acts_ite trivial <| acts_option sticky_kalloc trivial fun _ => acts_bind
      (sticky_write fun _ => ⟨id, id⟩) fun _ => acts_bool sticky_mappages trivial
        (sticky_copyuvmLoop n _)) trivial

end Copy

end Xv6.Vm
