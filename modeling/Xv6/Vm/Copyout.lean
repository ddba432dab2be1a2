import Xv6.Vm.Growproc

/-!
# Copying to user memory

`copyout` goes from page to page through a page directory. What it can reach are the pages that are
present with `PTE_U`; what it needs is a page table for every page it looks at.
-/

namespace Xv6.Vm

open Lib Prog

/-- The page and the offset in it that user code uses at address `a`. -/
def State.addr (s : State) (d a : Nat) : Option (Nat × Nat) :=
  (s.user d (a / PGSIZE)).map fun g => (g, a % PGSIZE)

/-- A copy on its way: the bytes of `src` are still to be stored, from address `va` on. -/
structure Copying where
  va : Nat
  src : List Byte
  state : State

namespace Copying

/-- The copy goes on with the next page once it has stored what belongs on page `g`. -/
def next (c : Copying) (g : Nat) : Copying where
  va := (c.va / PGSIZE + 1) * PGSIZE % 2 ^ 32
  src := c.src.drop (PGSIZE - c.va % PGSIZE)
  state := c.state.setPage g
    ((c.state.page g).splice (c.va % PGSIZE) (c.src.take (PGSIZE - c.va % PGSIZE)))

/-- One page is stored to. User code must be allowed to use it at that time. -/
inductive Step (d : Nat) : Copying → Copying → Prop
  | page {c : Copying} {g : Nat} (hsrc : c.src ≠ [])
      (hg : c.state.user d (c.va / PGSIZE) = some g) :
      Step d c (c.next g)

/-- How far a copy may get. -/
abbrev Steps (d : Nat) : Copying → Copying → Prop := Relation.ReflTransGen (Step d)

/-- There is no page table for the next page. -/
def Hole (d : Nat) (c : Copying) : Prop :=
  c.src ≠ [] ∧ c.state.table d (c.va / PGSIZE / 1024) = none

end Copying

/-- `copyout` stores to pages that user code may use and to nothing else. It returns 0 if it has
stored all bytes, and else -1. -/
def CopyoutSafe (d va : Nat) (src : List Byte) (s : State) : Prop :=
  ∃ r c, (copyout d va src).run s = .ok r c.state ∧ Copying.Steps d ⟨va, src, s⟩ c ∧
    (r = true ↔ c.src = [])

/-- The user pages of an address space are all different, and none of them is the directory or a
page table. -/
structure Private (d : Nat) (s : State) : Prop where
  inj : ∀ {v w g}, v < NPAGES → w < NPAGES → s.user d v = some g → s.user d w = some g → v = w
  dir : ∀ {v}, v < NPAGES → s.user d v ≠ some d
  table : ∀ {v i t}, v < NPAGES → i < NPDENTRIES → s.table d i = some t → s.user d v ≠ some t

/-- The bytes `done` are in user memory from address `va` on, and nothing else has changed. -/
structure Stored (d va : Nat) (done : List Byte) (s s' : State) : Prop where
  rest : s' = { s with page := s'.page }
  table : ∀ i < NPDENTRIES, s'.table d i = s.table d i
  pte : ∀ v < NPAGES, s'.pte d v = s.pte d v
  bytes : ∀ i < done.length, ∃ g o, s.addr d ((va + i) % 2 ^ 32) = some (g, o) ∧
    done[i]? = some (s'.page g o)
  other : ∀ g o, (∀ i < done.length, s.addr d ((va + i) % 2 ^ 32) ≠ some (g, o)) →
    s'.page g o = s.page g o

section Loop

variable {s : State} {d v va fuel : Nat} {src : List Byte} {c c' : Copying}

lemma wp_uva2ka {Q : Option Nat → State → Prop} {E : Option Panic → State → Prop} (hv : v < NPAGES)
    (hhole : s.table d (v / 1024) = none → E (some .nullPte) s)
    (hok : s.table d (v / 1024) ≠ none → Q (s.user d v) s) : (uva2ka d (PGSIZE * v)).wp Q E s := by
  rw [uva2ka]
  cases ht : s.table d (v / 1024) with
  | none => exact wp_bind.mpr (wp_of_run (run_walkpgdir_missing hv ht) (hhole ht))
  | some t =>
    have h := hok (by simp [ht])
    rw [State.user, pte_of_table ht] at h
    refine wp_bind.mpr (wp_of_run (run_walkpgdir_found hv ht false) ?_)
    simp only [wp_read]
    by_cases hp : present (s.word t (v % 1024)) = true
    · rw [valid_of_present hp, Option.bind_some] at h
      rw [if_neg (by simp [hp])]
      split_ifs at h ⊢ <;> exact h
    · rw [valid_of_not hp] at h
      rwa [if_pos (by simp [hp])]

lemma take_min (l : List Byte) (n : Nat) : l.take (min n l.length) = l.take n := by
  rcases Nat.le_total n l.length with h | h
  · rw [Nat.min_eq_left h]
  · rw [Nat.min_eq_right h, List.take_of_length_le h, List.take_length]

lemma drop_min (l : List Byte) (n : Nat) : l.drop (min n l.length) = l.drop n := by
  rcases Nat.le_total n l.length with h | h
  · rw [Nat.min_eq_left h]
  · rw [Nat.min_eq_right h, List.drop_of_length_le h, List.drop_length]

/-- One round of the loop. -/
lemma wp_copyoutLoop_succ {Q : Bool → State → Prop} {E : Option Panic → State → Prop}
    (hva : c.va < 2 ^ 32) (hsrc : c.src ≠ []) (hhole : c.Hole d → E (some .nullPte) c.state)
    (hstop : ¬ c.Hole d → c.state.user d (c.va / PGSIZE) = none → Q false c.state)
    (hstep : ∀ g, c.state.user d (c.va / PGSIZE) = some g →
      (copyoutLoop d (c.next g).va (c.next g).src fuel).wp Q E (c.next g).state) :
    (copyoutLoop d c.va c.src (fuel + 1)).wp Q E c.state := by
  have hv : c.va / PGSIZE < NPAGES := by
    simp only [PGSIZE, NPAGES]
    omega
  have hva0 : PGROUNDDOWN c.va = PGSIZE * (c.va / PGSIZE) := Nat.mul_comm ..
  have hoff : c.va - PGSIZE * (c.va / PGSIZE) = c.va % PGSIZE := (Nat.mod_eq_sub ..).symm
  have hnext : PGSIZE * (c.va / PGSIZE) + PGSIZE = (c.va / PGSIZE + 1) * PGSIZE := by
    rw [Nat.add_mul, Nat.mul_comm, Nat.one_mul]
  rw [copyoutLoop, if_neg (by simpa using hsrc)]
  simp only [hva0, hoff, hnext, take_min, drop_min]
  refine wp_bind.mpr (wp_uva2ka hv (fun ht => hhole ⟨hsrc, ht⟩) fun ht => ?_)
  cases hu : c.state.user d (c.va / PGSIZE) with
  | none => exact hstop (fun hh => ht hh.2) hu
  | some g => exact hstep g hu

lemma Copying.next_va_lt (c : Copying) (g : Nat) :
    (c.next g).va < 2 ^ 32 := Nat.mod_lt _ (by decide)

/-- A page has room for at least one byte. -/
lemma Copying.length_next (h : c.src ≠ []) (g : Nat) : (c.next g).src.length < c.src.length := by
  have hpos := List.length_pos_iff.mpr h
  have hmod : c.va % PGSIZE < PGSIZE := Nat.mod_lt _ (by decide)
  rw [Copying.next, List.length_drop]
  omega

/-- The loop goes as far as it can, or to a hole. -/
lemma wp_copyoutLoop_steps : ∀ fuel (c : Copying), c.va < 2 ^ 32 → c.src.length ≤ fuel →
    (copyoutLoop d c.va c.src fuel).wp
      (fun r s' => ∃ c' : Copying, s' = c'.state ∧ Copying.Steps d c c' ∧ (r = true ↔ c'.src = []))
      (fun _ s' => ∃ c' : Copying, s' = c'.state ∧ Copying.Steps d c c' ∧ c'.Hole d) c.state := by
  intro fuel
  induction fuel with
  | zero =>
    intro c _ hlen
    exact ⟨c, rfl, .refl, iff_of_true rfl (List.length_eq_zero_iff.mp (Nat.le_zero.mp hlen))⟩
  | succ fuel ih =>
    intro c hva hlen
    by_cases hsrc : c.src = []
    · rw [copyoutLoop, if_pos (by simp [hsrc])]
      exact ⟨c, rfl, .refl, iff_of_true rfl hsrc⟩
    refine wp_copyoutLoop_succ hva hsrc (fun hh => ⟨c, rfl, .refl, hh⟩)
      (fun _ _ => ⟨c, rfl, .refl, iff_of_false (by simp) hsrc⟩) fun g hg => ?_
    have hlt := Copying.length_next hsrc g
    refine wp_mono (ih (c.next g) (c.next_va_lt g) (by omega)) ?_ ?_
    · rintro r s' ⟨c', hs', hsteps, hr⟩
      exact ⟨c', hs', .head (.page hsrc hg) hsteps, hr⟩
    · rintro e s' ⟨c', hs', hsteps, hhole⟩
      exact ⟨c', hs', .head (.page hsrc hg) hsteps, hhole⟩

/-- A hole that a copy can get to stops the kernel. -/
lemma wp_copyoutLoop_hole (h : Copying.Steps d c c') (hhole : c'.Hole d) : ∀ fuel, c.va < 2 ^ 32 →
    c.src.length ≤ fuel → (copyoutLoop d c.va c.src fuel).wp (fun _ _ => False)
      (fun _ _ => True) c.state := by
  induction h using Relation.ReflTransGen.head_induction_on with
  | refl =>
    intro fuel hva hlen
    cases fuel with
    | zero => exact absurd (List.length_eq_zero_iff.mp (Nat.le_zero.mp hlen)) hhole.1
    | succ fuel =>
      refine wp_copyoutLoop_succ hva hhole.1 (fun _ => trivial) (fun hn _ => hn hhole)
        fun g hg => ?_
      rw [State.user, pte_of_no_table hhole.2] at hg
      cases hg
  | head hstep _ ih =>
    cases hstep with | @page g hsrc hg => ?_
    intro fuel hva hlen
    have hlt := Copying.length_next hsrc g
    cases fuel with
    | zero => exact absurd (List.length_eq_zero_iff.mp (Nat.le_zero.mp hlen)) hsrc
    | succ fuel =>
      refine wp_copyoutLoop_succ hva hsrc (fun _ => trivial) (fun _ hn => ?_) fun g' hg' => ?_
      · rw [hg] at hn
        cases hn
      · obtain rfl := Option.some.inj (hg.symm.trans hg')
        exact ih fuel (Copying.next_va_lt _ _) (by omega)

end Loop

/-! ### Address spaces of their own -/

section Private

variable {s s' u : State} {d va a g : Nat} {done bytes src : List Byte} {c : Copying}

lemma Stored.refl : Stored d va [] s s where
  rest := rfl
  table _ _ := rfl
  pte _ _ := rfl
  bytes _ hi := absurd hi (Nat.not_lt_zero _)
  other _ _ _ := rfl

lemma addr_eq_some {o : Nat} :
    s.addr d a = some (g, o) ↔ s.user d (a / PGSIZE) = some g ∧ a % PGSIZE = o := by
  rw [State.addr, Option.map_eq_some_iff]
  constructor
  · rintro ⟨_, hg, heq⟩
    cases heq
    exact ⟨hg, rfl⟩
  · rintro ⟨hg, rfl⟩
    exact ⟨g, hg, rfl⟩

lemma splice_same {b : Bytes} {o i : Nat} (hi : i < bytes.length) :
    bytes[i]? = some (b.splice o bytes (o + i)) := by
  rw [Bytes.splice, if_pos (by omega), Nat.add_sub_cancel_left, List.getD_eq_getElem?_getD,
    List.getElem?_eq_getElem hi, Option.getD_some]

lemma splice_other {b : Bytes} {o j : Nat} (h : j < o ∨ o + bytes.length ≤ j) :
    b.splice o bytes j = b j :=
  if_neg (by omega)

/-- Bytes that go on one page follow those that are there. -/
lemma Stored.step (hp : Private d s) (h : Stored d va done s u)
    (ha : a = (va + done.length) % 2 ^ 32)
    (hg : s.user d (a / PGSIZE) = some g) (hroom : a % PGSIZE + bytes.length ≤ PGSIZE)
    (hlen : done.length + bytes.length ≤ 2 ^ 32) :
    Stored d va (done ++ bytes) s (u.setPage g ((u.page g).splice (a % PGSIZE) bytes)) := by
  have hav : a / PGSIZE < NPAGES := by
    simp only [PGSIZE, NPAGES]
    omega
  have hgd : g ≠ d := by
    rintro rfl
    exact hp.dir hav hg
  have hgt : ∀ i < NPDENTRIES, ∀ t, s.table d i = some t → t ≠ g := by
    rintro i hi t ht rfl
    exact hp.table hav hi ht hg
  have htable : ∀ i < NPDENTRIES, (u.setPage g ((u.page g).splice (a % PGSIZE) bytes)).table d i =
      s.table d i := by
    intro i hi
    rw [table_congr (State.setPage_ne hgd.symm), h.table i hi]
  -- the address of byte `i` lies on page `g` only if it is one of the new bytes
  have hold : ∀ i < done.length, ∀ o, s.addr d ((va + i) % 2 ^ 32) = some (g, o) →
      o < a % PGSIZE ∨ a % PGSIZE + bytes.length ≤ o := by
    intro i hi o ho
    obtain ⟨hu, rfl⟩ := addr_eq_some.mp ho
    have hiv : (va + i) % 2 ^ 32 / PGSIZE < NPAGES := by
      simp only [PGSIZE, NPAGES]
      omega
    have hpage := hp.inj hiv hav hu hg
    simp only [PGSIZE] at *
    omega
  refine ⟨?_, htable, fun v hv => ?_, fun i hi => ?_, fun g' o hgo => ?_⟩
  · conv_lhs => rw [h.rest]
    rfl
  · rw [pte_congr (State.setPage_ne hgd.symm) (fun i hi t ht => State.setPage_ne ?_) hv, h.pte v hv]
    rw [h.table i hi] at ht
    exact hgt i hi t ht
  · rcases Nat.lt_or_ge i done.length with hlt | hge
    · obtain ⟨g', o, haddr, hbyte⟩ := h.bytes i hlt
      refine ⟨g', o, haddr, ?_⟩
      rw [List.getElem?_append_left hlt, hbyte]
      by_cases hgg : g' = g
      · subst hgg
        rw [State.setPage_same, splice_other (hold i hlt o haddr)]
      · rw [State.setPage_ne hgg]
    · rw [List.length_append] at hi
      have hdiv : (va + i) % 2 ^ 32 / PGSIZE = a / PGSIZE := by
        simp only [PGSIZE] at *
        omega
      have hmod : (va + i) % 2 ^ 32 % PGSIZE = a % PGSIZE + (i - done.length) := by
        simp only [PGSIZE] at *
        omega
      refine ⟨g, a % PGSIZE + (i - done.length), addr_eq_some.mpr ⟨by rw [hdiv, hg], hmod⟩, ?_⟩
      rw [List.getElem?_append_right hge, State.setPage_same, splice_same (by omega)]
  · rw [← h.other g' o fun i hi => hgo i (by rw [List.length_append]; omega)]
    by_cases hgg : g' = g
    · subst hgg
      rw [State.setPage_same, splice_other]
      by_contra hin
      refine hgo (done.length + (o - a % PGSIZE)) (by rw [List.length_append]; omega)
        (addr_eq_some.mpr ⟨?_, ?_⟩)
      · rw [← hg]
        congr 1
        simp only [PGSIZE] at *
        omega
      · simp only [PGSIZE] at *
        omega
    · rw [State.setPage_ne hgg]

/-- However far a copy gets, what it has stored is there. -/
lemma stored_of_steps (hp : Private d s) (hva : va < 2 ^ 32) (hlen : src.length ≤ 2 ^ 32)
    (h : Copying.Steps d ⟨va, src, s⟩ c) : ∃ done, src = done ++ c.src ∧
      (c.src ≠ [] → c.va = (va + done.length) % 2 ^ 32) ∧ Stored d va done s c.state := by
  induction h with
  | refl => exact ⟨[], rfl, fun _ => (Nat.mod_eq_of_lt hva).symm, .refl⟩
  | @tail c _ _ hstep ih =>
    cases hstep with | @page g hsrc hg => ?_
    obtain ⟨done, hsplit, hcva, hst⟩ := ih
    have hva' := hcva hsrc
    have hv : c.va / PGSIZE < NPAGES := by
      simp only [PGSIZE, NPAGES]
      omega
    have hmod : c.va % PGSIZE < PGSIZE := Nat.mod_lt _ (by decide)
    have htotal : src.length = done.length + c.src.length := by rw [hsplit, List.length_append]
    rw [user_congr (hst.pte _ hv)] at hg
    refine ⟨done ++ c.src.take (PGSIZE - c.va % PGSIZE), ?_, fun hne => ?_, ?_⟩
    · rw [List.append_assoc, Copying.next, List.take_append_drop, hsplit]
    · have hlong : PGSIZE - c.va % PGSIZE < c.src.length := by
        by_contra hle
        exact hne (List.drop_of_length_le (by omega))
      rw [List.length_append, List.length_take, Nat.min_eq_left hlong.le, Copying.next]
      simp only [PGSIZE] at *
      omega
    · refine hst.step hp hva' hg ?_ ?_
      · rw [List.length_take]
        omega
      · rw [List.length_take]
        omega

end Private

/-- `copyout` is safe exactly if it never comes to a page without a page table. In an address space
that has its pages for itself, the bytes it has stored are then in user memory and all other memory
is as before. -/
theorem copyout_safe_iff (s : State) (d : Nat) (va : BitVec 32) (src : List Byte) :
    (CopyoutSafe d va.toNat src s ↔ ∀ c, Copying.Steps d ⟨va.toNat, src, s⟩ c → ¬ c.Hole d) ∧
      (Private d s → src.length < 2 ^ 32 → ∀ r s', (copyout d va.toNat src).run s = .ok r s' →
        ∃ done, done <+: src ∧ (r = true ↔ done = src) ∧ Stored d va.toNat done s s') := by
  have hloop := wp_copyoutLoop_steps (d := d) src.length ⟨va.toNat, src, s⟩ va.isLt le_rfl
  refine ⟨⟨?_, fun hno => ?_⟩, fun hp hlen r s' hrun => ?_⟩
  · rintro ⟨r, c, hrun, -⟩ c' hsteps hhole
    exact wp_ok (wp_copyoutLoop_hole hsteps hhole src.length va.isLt le_rfl) hrun
  · obtain ⟨r, s', hrun, c, rfl, hsteps, hr⟩ :=
      wp_total (wp_mono hloop (fun _ _ => id) fun _ _ ⟨c, _, hsteps, hhole⟩ => hno c hsteps hhole)
    exact ⟨r, c, hrun, hsteps, hr⟩
  · obtain ⟨c, rfl, hsteps, hr⟩ := wp_ok hloop hrun
    obtain ⟨done, hsplit, -, hst⟩ := stored_of_steps hp va.isLt hlen.le hsteps
    refine ⟨done, ⟨c.src, hsplit.symm⟩, hr.trans ?_, hst⟩
    rw [hsplit]
    exact List.self_eq_append_right.symm

lemma user_onePage {v : Nat} : onePage.user 300 v = if v = 0 then some 302 else none := by
  rw [State.user, onePage_eq, pte_onePageAt (by decide) (by decide)]
  split_ifs <;> rfl

/-- Two bytes go to the page of a process that has one page. -/
theorem copyout_safe_iff_onePage : Private 300 onePage ∧
    ∃ s', (copyout 300 0 [1, 2]).run onePage = .ok true s' ∧ Stored 300 0 [1, 2] onePage s' := by
  have hprivate : Private 300 onePage := by
    refine ⟨fun {v w g} _ _ hv hw => ?_, fun {v} _ => ?_, fun {v i t} _ _ ht => ?_⟩
    · rw [user_onePage] at hv hw
      split_ifs at hv hw with h1 h2
      rw [h1, h2]
    · rw [user_onePage]
      split_ifs <;> simp
    · rw [onePage_eq, table_onePageAt] at ht
      split_ifs at ht
      rw [user_onePage, ← ht]
      split_ifs <;> simp
  have hwp : (copyout 300 0 [1, 2]).wp (fun r _ => r = true) (fun _ _ => False) onePage := by
    refine wp_copyoutLoop_succ (c := ⟨0, [1, 2], onePage⟩) (by decide) (by simp) (fun hh => ?_)
      (fun _ hu => ?_) fun g _ => ?_
    · have ht := hh.2
      rw [onePage_eq, table_onePageAt] at ht
      cases ht
    · rw [user_onePage] at hu
      cases hu
    · exact rfl
  obtain ⟨r, s', hrun, rfl⟩ := wp_total hwp
  obtain ⟨done, -, hdone, hst⟩ :=
    (copyout_safe_iff onePage 300 0 [1, 2]).2 hprivate (by decide) true s' hrun
  obtain rfl := hdone.mp rfl
  exact ⟨hprivate, s', hrun, hst⟩

/-- A byte that is to go where the process has no page table. -/
theorem copyout_follows_null :
    Space twoPages ([300, 301, 302].count ·) (fun _ => 0) 300 onePage ∧
      ¬ CopyoutSafe 300 (PGSIZE * 1024) [0] onePage := by
  have ht : onePage.table 300 (PGSIZE * 1024 / PGSIZE / 1024) = none := by
    rw [onePage_eq, table_onePageAt, if_neg (by decide)]
  have hhole : Copying.Hole 300 ⟨PGSIZE * 1024, [0], onePage⟩ := ⟨by simp, ht⟩
  have hwp := wp_copyoutLoop_hole .refl hhole 1 (by decide) le_rfl
  refine ⟨space_onePage, ?_⟩
  rintro ⟨r, c, hrun, -⟩
  rw [copyout] at hrun
  exact wp_ok hwp hrun

end Xv6.Vm
