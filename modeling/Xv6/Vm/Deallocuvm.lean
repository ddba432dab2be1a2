import Xv6.Vm.PageTable

/-!
# Mapping a page and freeing a range of pages

`mappages` of one page, and `deallocuvm`, which skips a whole page table when it finds one missing.
A range that starts in the middle of a missing table is then left again in the middle of the next
one, and pages at the beginning of that table stay mapped. -/

namespace Xv6.Vm

open Lib Prog Finset

/-- The pages that `sz` bytes take. -/
def pages (sz : Nat) : Nat := (sz + PGSIZE - 1) / PGSIZE

section Pages

variable {sz v : Nat}

lemma lt_pages : v < pages sz ↔ PGSIZE * v < sz := by
  simp only [pages, PGSIZE]
  omega

lemma PGROUNDUP_eq (h : sz ≤ KERNBASE) : PGROUNDUP sz = PGSIZE * pages sz := by
  simp only [PGROUNDUP, pages, PGSIZE, KERNBASE] at *
  omega

lemma pages_le (h : sz ≤ KERNBASE) : pages sz ≤ NUSER := by
  simp only [pages, PGSIZE, KERNBASE, NUSER] at *
  omega

lemma pages_mono {sz' : Nat} (h : sz ≤ sz') : pages sz ≤ pages sz' :=
  Nat.div_le_div_right (Nat.sub_le_sub_right (Nat.add_le_add_right h _) _)

end Pages

/-! ### Mapping one page -/

/-- `s'` is `s` after `walkpgdir` has found or made the page table `t` for page `v`. -/
structure Walked (R : Nat → Nat) (d v t : Nat) (s s' : State) : Prop where
  frame : Frame R s s'
  table : ∀ j, s'.table d j = if j = v / 1024 then some t else s.table d j
  pte : ∀ w < NPAGES, s'.pte d w = s.pte d w
  free : s'.fs.freelist = s.fs.freelist.drop (if s.table d (v / 1024) = none then 1 else 0)
  room : s.table d (v / 1024) = none → s.fs.freelist ≠ []
  failed : s'.failed = s.failed

/-- `s'` is `s` after page `v` was mapped to `e`. -/
structure Mapped (R : Nat → Nat) (d v e : Nat) (s s' : State) : Prop where
  frame : Frame R s s'
  table : ∀ j, s'.table d j = none ↔ j ≠ v / 1024 ∧ s.table d j = none
  pte : ∀ w < NPAGES, s'.pte d w = if w = v then some e else s.pte d w
  free : s'.fs.freelist = s.fs.freelist.drop (if s.table d (v / 1024) = none then 1 else 0)
  room : s.table d (v / 1024) = none → s.fs.freelist ≠ []
  failed : s'.failed = s.failed

/-- The pages of the user part have the contents they had. -/
def SameUser (d : Nat) (s s' : State) :
    Prop := ∀ v < NUSER, ∀ g, s.leaf d v = some g → s'.page g = s.page g

section Map

variable {sy : Symbols} {T R : Nat → Nat} {s : State} {d v g : Nat} {bs : List Bool}

/-- The free pages that are left. -/
lemma Mapped.length {s' : State} {e : Nat} (hm : Mapped R d v e s s') : s.fs.freelist.length =
    s'.fs.freelist.length + if s.table d (v / 1024) = none then 1 else 0 := by
  rw [hm.free, List.length_drop]
  split_ifs with ht
  · have := List.length_pos_iff.mpr (hm.room ht)
    omega
  · omega

lemma Space.sameUser_tabled {i t : Nat} {l : List Nat} (h : Space sy T R d s)
    (hf : s.fs.freelist = t :: l) : SameUser d s (s.tabled d i t l) := by
  intro w hw x hx
  have hmem : t ∈ s.fs.freelist := by rw [hf]; exact List.mem_cons_self
  have hzero := Own.not_free h hmem
  refine tabled_page (h.leaf_ne_dir hw hx) ?_
  rintro rfl
  have := mass_leaf hw hx
  omega

section Refusing

variable {E : Option Panic → State × List Bool → Prop}

lemma wp_refusing_walk {Q : Option (Nat × Nat) → State × List Bool → Prop} (h : Space sy T R d s)
    (hv : v < NPAGES)
    (hok : ∀ t s' bs', Space sy T R d s' → Walked R d v t s s' → SameUser d s s' →
      granted bs s.fs.freelist.length = granted bs' s'.fs.freelist.length +
        (if s.table d (v / 1024) = none then 1 else 0) → Q (some (t, v % 1024)) (s', bs'))
    (hfail : s.table d (v / 1024) = none → granted bs s.fs.freelist.length = 0 →
      Q none ({ s with failed := true }, bs.tail)) :
    (refusing (walkpgdir d (PGSIZE * v) true)).wp Q E (s, bs) := by
  refine wp_refusing_walkpgdir hv (fun t ht => ?_) (fun t l ht hf hg => ?_) hfail
  · refine hok t s bs h ⟨Frame.refl R s, fun j => ?_, fun _ _ => rfl, ?_, fun hn => ?_, rfl⟩
      (fun _ _ _ _ => rfl) ?_
    · split_ifs with hj
      · rw [hj, ht]
      · rfl
    · rw [ht, if_neg (by simp), List.drop_zero]
    · rw [ht] at hn
      exact absurd hn (by simp)
    · rw [ht, if_neg (by simp), Nat.add_zero]
  · obtain ⟨hs, hframe, htable, hpte⟩ := h.tabled (div_lt_tables hv) ht hf
    refine hok t _ bs.tail hs ⟨hframe, htable, hpte, ?_, fun _ => ?_, rfl⟩ (h.sameUser_tabled hf) ?_
    · rw [ht, if_pos rfl, hf]
      rfl
    · rw [hf]
      simp
    · rw [ht, if_pos rfl, hg]
      rfl

end Refusing

/-- The entry for page `g` that user pages get. -/
lemma userEntry (g : Nat) : PGSIZE * g ||| (PTE_W ||| PTE_U) ||| PTE_P = PGSIZE * g + 7 := by
  have hflags : PTE_W ||| PTE_U ||| PTE_P = 7 := rfl
  rw [Nat.or_assoc, hflags]
  exact page_or g (by decide)

lemma userEntry_user (g : Nat) : (PGSIZE * g + 7) &&& PTE_U ≠ 0 := by
  rw [Ne, and_user]
  simp only [PGSIZE]
  omega

lemma mappages_one (hv : v < NPAGES) (pa perm : Nat) :
    mappages d (PGSIZE * v) PGSIZE pa perm =
      mappagesLoop d (PGSIZE * v) (PGSIZE * v) pa perm 1 := by
  have ha : PGROUNDDOWN (PGSIZE * v) = PGSIZE * v := by
    simp only [PGROUNDDOWN, PGSIZE]
    omega
  have hlast : PGROUNDDOWN ((PGSIZE * v + PGSIZE + 2 ^ 32 - 1) % 2 ^ 32) = PGSIZE * v := by
    have hsum : PGSIZE * v + PGSIZE + 2 ^ 32 - 1 = PGSIZE * v + (PGSIZE - 1) + 2 ^ 32 := by
      simp only [PGSIZE]
      omega
    rw [hsum, Nat.add_mod_right, Nat.mod_eq_of_lt]
    · simp only [PGROUNDDOWN, PGSIZE]
      omega
    · simp only [PGSIZE, NPAGES] at *
      omega
  rw [mappages, ha, hlast, Nat.add_sub_cancel_left, Nat.mod_self, Nat.zero_div]

section Refusing

variable {E : Option Panic → State × List Bool → Prop}

/-- `mappages` of a page in hand, at a page of the user part that is not mapped. -/
lemma wp_refusing_mapUser {Q : Bool → State × List Bool → Prop} (h : Space sy T (plus R g) d s)
    (hv : v < NUSER) (hnone : s.pte d v = none)
    (hok : ∀ s' bs', Space sy T R d s' → Mapped R d v (PGSIZE * g + 7) s s' → SameUser d s s' →
      s'.page g = s.page g →
      granted bs s.fs.freelist.length = granted bs' s'.fs.freelist.length +
        (if s.table d (v / 1024) = none then 1 else 0) → Q true (s', bs'))
    (hfail : s.table d (v / 1024) = none → granted bs s.fs.freelist.length = 0 →
      Q false ({ s with failed := true }, bs.tail)) :
    (refusing (mappages d (PGSIZE * v) PGSIZE (PGSIZE * g) (PTE_W ||| PTE_U))).wp Q E (s, bs) := by
  have hvp : v < NPAGES := hv.trans (by decide)
  rw [mappages_one hvp, mappagesLoop, refusing_bind]
  refine wp_bind.mpr (wp_refusing_walk h hvp (fun t s1 bs1 h₁ hw hu hg => ?_) hfail)
  have ht : s1.table d (v / 1024) = some t := by rw [hw.table, if_pos rfl]
  have hnone1 : s1.pte d v = none := (hw.pte v hvp).trans hnone
  have hword : ¬ present (s1.word t (v % 1024)) = true := by
    intro hp
    rw [pte_of_table ht, valid_of_present hp] at hnone1
    exact absurd hnone1 (by simp)
  have hlt : PGSIZE * g + 7 < 2 ^ 32 := by
    have hvalid : sy.Valid g := Own.valid_of_pos h (by rw [plus_same]; omega)
    have := hvalid.lt
    simp only [PGSIZE, NUSER] at *
    omega
  obtain ⟨htable, hpte⟩ := h₁.pte_setWord hvp ht hlt
  simp only [refusing_bind, wp_refusing_read, if_neg hword, wp_refusing_write, if_true, userEntry]
  have hrest : plus R g t = 0 := h₁.rest_zero (mass_table (div_lt_tables hvp) ht)
  have hmass : R t = 0 := by
    have := le_plus R g t
    omega
  refine hok _ bs1 (h₁.map hv ht hnone1 (by decide) (by decide)) ⟨?_, fun j => ?_, fun w hw' => ?_,
    hw.free, hw.room, hw.failed⟩ (fun w hw' x hx => ?_) ?_ hg
  · exact (hw.frame.mono fun x hx => hx.trans_le (le_plus R g x)).trans (frame_setWord hmass)
  · rw [htable, hw.table]
    split_ifs with hj <;> simp [hj]
  · rw [hpte w hw', hw.pte w hw', valid_of_present (present_page g (by decide))]
  · have hx1 : s1.leaf d w = some x := by rw [leaf_congr (hw.pte w (hw'.trans (by decide))), hx]
    rw [State.setWord_ne (h₁.leaf_ne_table hw' hx1 (div_lt_tables hvp) ht).symm, hu w hw' x hx]
  · have htg : g ≠ t := by
      rintro rfl
      rw [plus_same] at hrest
      omega
    rw [State.setWord_ne htg]
    exact hw.frame.page g (by rw [plus_same]; omega)

end Refusing

variable {E : Option Panic → State → Prop}

lemma wp_walkpgdir {Q : Option (Nat × Nat) → State → Prop} (h : Space sy T R d s) (hv : v < NPAGES)
    (hok : ∀ t s', Space sy T R d s' → Walked R d v t s s' → Q (some (t, v % 1024)) s')
    (hfail : s.table d (v / 1024) = none → s.fs.freelist = [] → Q none { s with failed := true }) :
    (walkpgdir d (PGSIZE * v) true).wp Q E s := by
  refine wp_refusing_nil.mp (wp_refusing_walk h hv (fun t s' _ h' hw _ _ => hok t s' h' hw)
    fun ht hg => ?_)
  rw [granted_nil] at hg
  exact hfail ht (List.length_eq_zero_iff.mp hg)

lemma wp_mapUser {Q : Bool → State → Prop} (h : Space sy T (plus R g) d s) (hv : v < NUSER)
    (hnone : s.pte d v = none)
    (hok : ∀ s', Space sy T R d s' → Mapped R d v (PGSIZE * g + 7) s s' → SameUser d s s' →
      s'.page g = s.page g → Q true s')
    (hfail : s.table d (v / 1024) = none → s.fs.freelist = [] → Q false { s with failed := true }) :
    (mappages d (PGSIZE * v) PGSIZE (PGSIZE * g) (PTE_W ||| PTE_U)).wp Q E s := by
  refine wp_refusing_nil.mp
    (wp_refusing_mapUser h hv hnone (fun s' _ h' hm hu hp _ => hok s' h' hm hu hp)
    fun ht hg => ?_)
  rw [granted_nil] at hg
  exact hfail ht (List.length_eq_zero_iff.mp hg)

end Map

/-! ### `deallocuvm` -/

section Dealloc

variable {sy : Symbols} {T R : Nat → Nat} {s : State} {d v oldsz newsz : Nat}
  {E : Option Panic → State → Prop}

/-- The pages from `v` to `P` are unmapped and on the free list, the rest is as before. -/
structure Cut (R : Nat → Nat) (d v P : Nat) (s s' : State) : Prop where
  frame : Frame R s s'
  table : ∀ j, s'.table d j = s.table d j
  pte : ∀ w < NPAGES, s'.pte d w = if v ≤ w ∧ w < P then none else s.pte d w
  failed : s'.failed = s.failed

/-- Page `w` is passed over by the loop that is at page `v`: no page table was found before that of
`w`, and steps of a whole page table lead from the middle of one to the middle of the next. -/
def Missed (s : State) (d v w : Nat) : Prop :=
  v / 1024 < w / 1024 ∧ w % 1024 < v % 1024 ∧ ∀ j, v / 1024 ≤ j → j < w / 1024 → s.table d j = none

/-- The pages from `v` to `P` are unmapped and on the free list, except those that are missed. -/
structure Swept (R : Nat → Nat) (d v P : Nat) (s s' : State) : Prop where
  frame : Frame R s s'
  table : ∀ j, s'.table d j = s.table d j
  gone : ∀ w, v ≤ w → w < P → ¬ Missed s d v w → s'.pte d w = none
  kept : ∀ w < NPAGES, ¬ (v ≤ w ∧ w < P) ∨ Missed s d v w → s'.pte d w = s.pte d w
  failed : s'.failed = s.failed

section Missed

variable {s' : State} {w : Nat}

lemma Missed.congr (h : ∀ j, s'.table d j = s.table d j) : Missed s' d v w ↔ Missed s d v w := by
  unfold Missed
  simp only [h]

lemma not_missed_of_table {t : Nat} (ht : s.table d (v / 1024) = some t) : ¬ Missed s d v w := by
  rintro ⟨hlt, -, hnone⟩
  rw [hnone _ le_rfl hlt] at ht
  exact absurd ht (by simp)

/-- After a page of a table that is there no page is missed. -/
lemma not_missed_succ {t : Nat} (ht : s.table d (v / 1024) = some t) : ¬ Missed s d (v + 1) w := by
  rcases Nat.eq_zero_or_pos ((v + 1) % 1024) with h0 | hpos
  · rintro ⟨-, hlt, -⟩
    omega
  · refine not_missed_of_table (t := t) ?_
    rwa [show (v + 1) / 1024 = v / 1024 by omega]

/-- Past a missing table the same pages are missed. -/
lemma missed_skip (ht : s.table d (v / 1024) = none) (hw : v + 1024 ≤ w) :
    Missed s d (v + 1024) w ↔ Missed s d v w := by
  constructor
  · rintro ⟨h1, h2, h3⟩
    refine ⟨by omega, by omega, fun j hj hjw => ?_⟩
    rcases Nat.eq_or_lt_of_le hj with rfl | hlt
    · exact ht
    · exact h3 j (by omega) hjw
  · rintro ⟨h1, h2, h3⟩
    exact ⟨by omega, by omega, fun j hj hjw => h3 j (by omega) hjw⟩

/-- The pages between here and the next step are not mapped or missed. -/
lemma pte_of_skipped (ht : s.table d (v / 1024) = none) (hw : v ≤ w) (hw' : w < v + 1024)
    (hm : ¬ Missed s d v w) : s.pte d w = none := by
  by_cases hdiv : w / 1024 = v / 1024
  · exact pte_of_no_table (by rw [hdiv]; exact ht)
  · refine absurd ⟨by omega, by omega, fun j hj hjw => ?_⟩ hm
    rwa [show j = v / 1024 by omega]

end Missed

/-- The loop of `deallocuvm` from page `v` on. -/
lemma wp_deallocuvmLoop {Q : Unit → State → Prop} {fuel : Nat} (hfuel : pages oldsz ≤ v + fuel)
    (h : Space sy T R d s) (hP : oldsz ≤ KERNBASE)
    (hQ : ∀ s', Space sy T R d s' → Swept R d v (pages oldsz) s s' → Q () s') :
    (deallocuvmLoop sy d oldsz (PGSIZE * v) fuel).wp Q E s := by
  have hbound := pages_le hP
  induction fuel generalizing v s with
  | zero => exact hQ s h ⟨Frame.refl R s, fun _ => rfl,
      fun w _ _ => by omega, fun _ _ _ => rfl, rfl⟩
  | succ fuel ih =>
    rw [deallocuvmLoop]
    split_ifs with hlt
    swap
    · have hle : pages oldsz ≤ v := Nat.le_of_not_lt fun hv => hlt (lt_pages.mp hv)
      exact hQ s h ⟨Frame.refl R s, fun _ => rfl, fun w _ _ => by omega, fun _ _ _ => rfl, rfl⟩
    have hvP : v < pages oldsz := lt_pages.mpr hlt
    have hv : v < NUSER := hvP.trans_le hbound
    have hvp : v < NPAGES := hv.trans (by decide)
    cases ht : s.table d (v / 1024) with
    | none =>
      -- without a page table 1024 pages are skipped, also from the middle of its range
      refine wp_bind.mpr (wp_of_run (run_walkpgdir_missing hvp ht) ?_)
      have hnext : (PGSIZE * v + (NPTENTRIES - 1) * PGSIZE + PGSIZE) % 2 ^ 32 =
          PGSIZE * (v + 1024) := by
        simp only [PGSIZE, NPTENTRIES, NUSER] at *
        omega
      change wp (deallocuvmLoop sy d oldsz
        ((PGSIZE * v + (NPTENTRIES - 1) * PGSIZE + PGSIZE) % 2 ^ 32) fuel) Q E s
      rw [hnext]
      refine ih (by omega) h fun s' h' hc => hQ s' h' ⟨hc.frame, hc.table, fun w hw hwP hm => ?_,
        fun w hw hout => ?_, hc.failed⟩
      · by_cases hfar : v + 1024 ≤ w
        · exact hc.gone w hfar hwP fun hm' => hm ((missed_skip ht hfar).mp hm')
        · rw [hc.kept w (by simp only [NUSER, NPAGES] at *; omega) (.inl (by omega))]
          exact pte_of_skipped ht hw (by omega) hm
      · by_cases hfar : v + 1024 ≤ w
        · refine hc.kept w hw (hout.imp (fun hn => by omega) fun hm => (missed_skip ht hfar).mpr hm)
        · exact hc.kept w hw (.inl (by omega))
    | some t =>
      refine wp_bind.mpr (wp_of_run (run_walkpgdir_found hvp ht false) ?_)
      change wp (if present (s.word t (v % 1024)) = true then _ else _) Q E s
      by_cases hp : present (s.word t (v % 1024)) = true
      · rw [if_pos hp]
        have hpte : s.pte d v = some (s.word t (v % 1024)) := by
          rw [pte_of_table ht, valid_of_present hp]
        have hleaf : s.leaf d v = some (frame (s.word t (v % 1024))) := by
          rw [State.leaf, hpte, Option.map_some]
        obtain ⟨hs, hframe, htable, hcut⟩ := h.unmap hv ht hleaf
        have hvalid : sy.Valid (frame (s.word t (v % 1024))) := by
          refine Own.valid_of_pos h ?_
          have := mass_leaf hv hleaf
          omega
        change wp (if frame (s.word t (v % 1024)) = 0 then _ else _) Q E s
        rw [if_neg (Nat.ne_of_gt hvalid.pos), kfree]
        change wp ((if KERNBASE + PGSIZE * frame (s.word t (v % 1024)) < sy.fin ∨
          PHYSTOP ≤ PGSIZE * frame (s.word t (v % 1024)) then _ else _) >>= _) Q E s
        rw [if_neg hvalid]
        change wp (deallocuvmLoop sy d oldsz ((PGSIZE * v + PGSIZE) % 2 ^ 32) fuel) Q E
          ((s.freed (frame (s.word t (v % 1024)))).setWord t (v % 1024) 0)
        rw [next_page (by unfold NUSER NPAGES at *; omega)]
        refine ih (by omega) hs fun s' h' hc => hQ s' h' ⟨hframe.trans hc.frame,
          fun j => (hc.table j).trans (htable j), fun w hw hwP _ => ?_, fun w hw hout =>
            ?_, hc.failed⟩
        · by_cases hwv : w = v
          · rw [hc.kept w (by omega) (.inl (by omega)), hcut w (by omega), if_pos hwv]
          · exact hc.gone w (by omega) hwP fun hm =>
              not_missed_succ ht ((Missed.congr htable).mp hm)
        · have hne : ¬ (v ≤ w ∧ w < pages oldsz) :=
            hout.resolve_right (not_missed_of_table ht)
          rw [hc.kept w hw (.inl (by omega)), hcut w hw, if_neg (by omega)]
      · rw [if_neg hp]
        have hnone : s.pte d v = none := by rw [pte_of_table ht, valid_of_not hp]
        rw [next_page (by unfold NUSER NPAGES at *; omega)]
        refine ih (by omega) h fun s' h' hc => hQ s' h' ⟨hc.frame, hc.table, fun w hw hwP _ => ?_,
          fun w hw hout => ?_, hc.failed⟩
        · by_cases hwv : w = v
          · rw [hc.kept w (by omega) (.inl (by omega)), hwv]
            exact hnone
          · exact hc.gone w (by omega) hwP (not_missed_succ ht)
        · have hne : ¬ (v ≤ w ∧ w < pages oldsz) :=
            hout.resolve_right (not_missed_of_table ht)
          exact hc.kept w hw (.inl (by omega))

lemma wp_deallocuvm_swept {Q : Nat → State → Prop} (h : Space sy T R d s) (hP : oldsz ≤ KERNBASE)
    (hlt : newsz < oldsz)
    (hQ : ∀ s', Space sy T R d s' → Swept R d (pages newsz) (pages oldsz) s s' → Q newsz s') :
    (deallocuvm sy d oldsz newsz).wp Q E s := by
  rw [deallocuvm, if_neg (by omega), PGROUNDUP_eq (by omega)]
  refine wp_bind.mpr (wp_deallocuvmLoop ?_ h hP hQ)
  simp only [pages, PGSIZE]
  omega

/-- When nothing that is mapped is missed, all is unmapped. -/
lemma Swept.cut {P : Nat} {s' : State} (hs : Swept R d v P s s')
    (hm : ∀ w, v ≤ w → w < P → Missed s d v w → s.pte d w = none) : Cut R d v P s s' := by
  refine ⟨hs.frame, hs.table, fun w hw => ?_, hs.failed⟩
  split_ifs with hin
  · by_cases hmiss : Missed s d v w
    · rw [hs.kept w hw (.inr hmiss)]
      exact hm w hin.1 hin.2 hmiss
    · exact hs.gone w hin.1 hin.2 hmiss
  · exact hs.kept w hw (.inl hin)

/-- The loop skips a whole page table at a time, so a missing one must not be met in its middle,
unless nothing is mapped from there on. -/
def Skips (s : State) (d v : Nat) : Prop :=
  s.table d (v / 1024) = none → v % 1024 = 0 ∨ ∀ w, v ≤ w → w < NUSER → s.pte d w = none

lemma Skips.pte_of_missed {w : Nat} (h : Skips s d v) (hw : v ≤ w) (hwu : w < NUSER)
    (hm : Missed s d v w) : s.pte d w = none := by
  rcases h (hm.2.2 _ le_rfl hm.1) with h0 | hall
  · have := hm.2.1
    omega
  · exact hall w hw hwu

lemma wp_deallocuvm {Q : Nat → State → Prop} (h : Space sy T R d s) (hP : oldsz ≤ KERNBASE)
    (hlt : newsz < oldsz) (hskip : Skips s d (pages newsz))
    (hQ : ∀ s', Space sy T R d s' → Cut R d (pages newsz) (pages oldsz) s s' → Q newsz s') :
    (deallocuvm sy d oldsz newsz).wp Q E s :=
  wp_deallocuvm_swept h hP hlt fun s' h' hs => hQ s' h' (hs.cut fun _ hw hwP hm =>
    hskip.pte_of_missed hw (hwP.trans_le (pages_le hP)) hm)

end Dealloc

/-! ### A process with one page -/

/-- A kernel of two pages. -/
def twoPages : Symbols where
  data := KERNLINK + PGSIZE
  fin := KERNLINK + 2 * PGSIZE
  aligned := by decide
  text := by decide
  data_le := by decide
  fin_le := by decide

/-- Processes with one page, page 302; its page table is page 301 and the directory page 300. -/
def onePage : State where
  fs := { disksize := 0, sector := fun _ _ => 0, log := ⟨0, 0, false, []⟩, inode := fun _ => {},
          file := fun _ => {}, proc := fun _ => { sz := PGSIZE }, input := [] }
  page g :=
    if g = 300 then Bytes.putLe (fun _ => 0) 0 4 (PGSIZE * 301 + 7)
    else if g = 301 then Bytes.putLe (fun _ => 0) 0 4 (PGSIZE * 302 + 7)
    else fun _ => 0
  pcb _ := { state := .live, pgdir := 300 }

/-- The same with the page table at entry `i` of the directory, the flags `f` for the page, and the
free pages `l`. -/
def onePageAt (i f : Nat) (l : List Nat) : State :=
  { onePage with
    fs := { onePage.fs with freelist := l }
    page := fun g =>
      if g = 300 then Bytes.putLe (fun _ => 0) (4 * i) 4 (PGSIZE * 301 + 7)
      else if g = 301 then Bytes.putLe (fun _ => 0) 0 4 (PGSIZE * 302 + f)
      else fun _ => 0 }

section OnePage

variable {i f v : Nat} {l : List Nat}

lemma onePage_eq : onePage = onePageAt 0 7 [] := rfl

lemma le_putLe_zero (i j v : Nat) (hv : v < 2 ^ 32) :
    (Bytes.putLe (fun _ => 0) (4 * i) 4 v).le (4 * j) 4 = if j = i then v else 0 := by
  split_ifs with hj
  · rw [hj, Bytes.le_putLe_same]
    exact Nat.mod_eq_of_lt hv
  · rw [Bytes.le_putLe_of_disjoint (by omega)]
    rfl

lemma table_onePageAt (j : Nat) :
    (onePageAt i f l).table 300 j = if j = i then some 301 else none := by
  have hword : (onePageAt i f l).word 300 j = if j = i then PGSIZE * 301 + 7 else 0 :=
    le_putLe_zero i j _ (by decide)
  rw [State.table, hword]
  split_ifs <;> rfl

lemma pte_onePageAt (hf : f < PGSIZE) (hodd : f % 2 = 1) :
    (onePageAt i f l).pte 300 v = if v = 1024 * i then some (PGSIZE * 302 + f) else none := by
  have hword : ∀ j, (onePageAt i f l).word 301 j = if j = 0 then PGSIZE * 302 + f else 0 :=
    fun j => le_putLe_zero 0 j _ (by simp only [PGSIZE] at *; omega)
  rw [State.pte, table_onePageAt]
  by_cases hv : v / 1024 = i
  · rw [if_pos hv, Option.bind_some, hword]
    by_cases h0 : v % 1024 = 0
    · rw [if_pos h0, if_pos (by omega), valid_of_present (present_page 302 hodd)]
    · rw [if_neg h0, if_neg (by omega), valid_zero]
  · rw [if_neg hv, if_neg (by omega), Option.bind_none]

lemma leaf_onePageAt (hf : f < PGSIZE) (hodd : f % 2 = 1) :
    (onePageAt i f l).leaf 300 v = if v = 1024 * i then some 302 else none := by
  rw [State.leaf, pte_onePageAt hf hodd]
  split_ifs
  · rw [Option.map_some, frame_add 302 hf]
  · rfl

lemma mass_onePageAt (hi : 1024 * i < NUSER) (hf : f < PGSIZE) (hodd : f % 2 = 1) (g : Nat) :
    (onePageAt i f l).mass 300 g = [300, 301, 302].count g := by
  have hone : ∀ n a k, k < n → occ (Finset.range n)
      (fun j => if j = k then some a else none) (some g) =
      [a].count g := by
    intro n a k hn
    have h := occ_change_some (S := Finset.range n) (v := fun _ => (none : Option Nat))
      (w := fun j => if j = k then some a else none) (b := g) (mem_range.mpr hn)
      fun j _ hj => if_neg hj
    have hnone : occ (Finset.range n) (fun _ => (none : Option Nat)) (some g) = 0 :=
      occ_eq_zero fun _ _ => by simp
    rw [hnone] at h
    simpa using h
  have hin : i < NPDENTRIES := by
    simp only [NUSER, NPDENTRIES] at *
    omega
  unfold State.mass
  rw [show (onePageAt i f l).table 300 = _ from funext fun j => table_onePageAt j,
    show (onePageAt i f l).leaf 300 = _ from funext fun v => leaf_onePageAt hf hodd, hone _ _ _ hin,
    hone _ _ _ hi, count_cons_single 300 g, count_cons_single 301 g [302], ← Nat.add_assoc]
  congr 2
  rw [List.count_singleton]
  simp

/-- The three pages and the free ones are different pages. -/
lemma space_onePageAt (hi : 1024 * i < NUSER) (hf : f < PGSIZE) (hodd : f % 2 = 1)
    (hl : (l ++ [300, 301, 302]).Nodup) (hvalid : ∀ g ∈ l, twoPages.Valid g) :
    Space twoPages ((l ++ [300, 301, 302]).count ·) (fun _ => 0) 300 (onePageAt i f l) where
  count g := by
    rw [mass_onePageAt hi hf hodd, List.count_append]
    rfl
  once g := List.nodup_iff_count_le_one.mp hl g
  valid g hg := by
    rcases List.mem_append.mp (List.count_pos_iff.mp hg) with h | h
    · exact hvalid g h
    · exact (by decide : ∀ g ∈ [300, 301, 302], twoPages.Valid g) g h

end OnePage

/-! ### The result -/

/-- `deallocuvm(d, oldsz, newsz)` unmaps the pages between `newsz` and `oldsz`, gives each page that
was mapped there to `kfree` once, and changes no other mapping. -/
def DeallocExact (sy : Symbols) (d oldsz newsz : Nat) (s : State) : Prop :=
  ∃ s', (deallocuvm sy d oldsz newsz).run s = .ok newsz s' ∧
    (∀ v < NPAGES, s'.pte d v = if PGROUNDUP newsz ≤ PGSIZE * v ∧ PGSIZE * v < oldsz then none
      else s.pte d v) ∧
    ∀ g, s'.fs.freelist.count g = s.fs.freelist.count g +
      occ (Finset.Ico (pages newsz) (pages oldsz)) (s.leaf d) (some g)

section Range

variable {sy : Symbols} {T R : Nat → Nat} {s s' : State} {d v P g oldsz newsz : Nat}

lemma range_iff (hP : newsz ≤ KERNBASE) :
    PGROUNDUP newsz ≤ PGSIZE * v ∧ PGSIZE * v < oldsz ↔ pages newsz ≤ v ∧ v < pages oldsz := by
  rw [PGROUNDUP_eq hP, lt_pages]
  exact and_congr_left' (Nat.mul_le_mul_left_iff (by decide))

/-- What is unmapped is on the free list afterwards. -/
lemma Cut.count (h : Space sy T R d s) (h' : Space sy T R d s') (hc : Cut R d v P s s')
    (hP : P ≤ NUSER) (g : Nat) : s'.fs.freelist.count g =
      s.fs.freelist.count g + occ (Finset.Ico v P) (s.leaf d) (some g) := by
  have hcount : _ + (_ + _) = _ := h.count g
  have hcount' : _ + (_ + _) = _ := h'.count g
  have htable : occ (Finset.range NPDENTRIES) (s'.table d) (some g) =
      occ (Finset.range NPDENTRIES) (s.table d) (some g) := occ_congr fun j _ => hc.table j
  have hleaf := occ_cut (S := Finset.range NUSER) (P := Finset.Ico v P) (v := s.leaf d)
    (w := s'.leaf d)
    (b := some g) (fun w hw => ?_) (fun w hw => ?_) fun w hw hout => ?_
  · unfold State.mass at hcount hcount'
    omega
  · rw [mem_Ico] at hw
    exact mem_range.mpr (by omega)
  · rw [mem_Ico] at hw
    have hwn : w < NPAGES := by simp only [NUSER, NPAGES] at *; omega
    rw [State.leaf, hc.pte w hwn, if_pos hw]
    simp
  · rw [mem_Ico] at hout
    have hwn : w < NPAGES := (mem_range.mp hw).trans (by decide)
    exact leaf_congr (by rw [hc.pte w hwn, if_neg hout])

/-- `deallocuvm` is exact unless it starts in the middle of a missing page table and there are pages
at the beginning of the next table, before the place where the loop comes to it. -/
theorem deallocuvm_exact_iff (h : Space sy T R d s) (hP : oldsz ≤ KERNBASE) (hlt : newsz < oldsz) :
    DeallocExact sy d oldsz newsz s ↔
      ∀ w, pages newsz ≤ w → w < pages oldsz → Missed s d (pages newsz) w → s.pte d w = none := by
  have hbound := pages_le hP
  obtain ⟨r, s', hrun, hr, h', hs⟩ := wp_total (wp_deallocuvm_swept
    (Q := fun r s' => r = newsz ∧ Space sy T R d s' ∧ Swept R d (pages newsz) (pages oldsz) s s')
    h hP hlt fun s' h' hs => ⟨rfl, h', hs⟩)
  subst hr
  constructor
  · rintro ⟨s'', hrun', hpte, -⟩ w hw hwP hm
    obtain ⟨-, rfl⟩ := Res.ok.inj (hrun.symm.trans hrun')
    have hwn : w < NPAGES := by simp only [NUSER, NPAGES] at *; omega
    rw [← hs.kept w hwn (.inr hm), hpte w hwn, if_pos ((range_iff (by omega)).mpr ⟨hw, hwP⟩)]
  · intro hm
    have hc := hs.cut hm
    refine ⟨s', hrun, fun v hv => ?_, hc.count h h' hbound⟩
    rw [hc.pte v hv]
    simp only [range_iff (show r ≤ KERNBASE by omega)]

/-- A process with the page table for page 1024 but not that for page 0: the pages from page 1 on
are to be freed, and page 1024 stays mapped. -/
theorem deallocuvm_misses_page :
    Space twoPages ([300, 301, 302].count ·) (fun _ => 0) 300 (onePageAt 1 7 []) ∧
      ¬ DeallocExact twoPages 300 (PGSIZE * 1025) PGSIZE (onePageAt 1 7 []) := by
  have hspace := space_onePageAt (i := 1) (f := 7) (l := []) (by decide) (by decide) (by decide)
    (by decide) (by decide)
  refine ⟨hspace, ?_⟩
  rintro ⟨s', hrun, hpte, -⟩
  obtain ⟨r, s'', hrun', hs⟩ := wp_total (wp_deallocuvm_swept
    (Q := fun _ s' => Swept (fun _ => 0) 300 (pages PGSIZE) (pages (PGSIZE * 1025))
    (onePageAt 1 7 []) s')
    hspace (by decide) (by decide) fun s' _ hs => hs)
  obtain ⟨-, rfl⟩ := Res.ok.inj (hrun.symm.trans hrun')
  have hmissed : Missed (onePageAt 1 7 []) 300 (pages PGSIZE) 1024 := by
    refine ⟨by decide, by decide, fun j _ hj => ?_⟩
    rw [table_onePageAt, if_neg (by omega)]
  have hgone := hpte 1024 (by decide)
  rw [if_pos (by decide), hs.kept 1024 (by decide) (.inr hmissed),
    pte_onePageAt (by decide) (by decide), if_pos rfl] at hgone
  exact absurd hgone (by simp)

/-- From page 1024 on the same range is freed. -/
theorem deallocuvm_exact_aligned :
    DeallocExact twoPages 300 (PGSIZE * 1025) (PGSIZE * 1024) (onePageAt 1 7 []) := by
  refine (deallocuvm_exact_iff (space_onePageAt (i := 1) (f := 7) (l := []) (by decide) (by decide)
    (by decide) (by decide) (by decide)) (by decide) (by decide)).mpr fun w _ _ hm => ?_
  exact absurd hm.2.1 (Nat.not_lt_zero _)

end Range

end Xv6.Vm
