import Xv6.Vm.Lifetime

/-!
# Each process has its memory for itself

In every run the pages that were free at boot are the pages on the free list, of the processes and
of the pipes, each in one place. So whatever system calls and stores the other processes do, a
process finds its memory as it has left it. -/

namespace Xv6.Vm

open Lib Prog

/-! ### A run with two processes -/

section Start

variable {sy : Symbols} {l : List Nat} {s s' : State}

lemma valid_1100 : (List.range' 300 1100).Nodup ∧ ∀ g ∈ List.range' 300 1100, twoPages.Valid g :=
  ⟨List.nodup_range', by decide +kernel⟩

/-- With enough free pages the kernel starts, and the first process forks. -/
lemma exists_forked (hl : l.Nodup) (hv : ∀ g ∈ l, sy.Valid g) (hlen : NPDENTRIES + 3 ≤ l.length) :
    ∃ s, Reachable sy l s ∧ Clean s ∧ (s.pcb 0).state = .live ∧ (s.pcb 1).state = .live ∧
      ∃ g, s.user (s.pcb 1).pgdir 0 = some g := by
  obtain ⟨_, s, hr, hinv, hf, hc⟩ :
      ∃ a s, (userinit sy []).run (boot (fun _ _ => 0) (fun _ _ => 0) l) =
      .ok a s ∧ Inv sy (l.count ·) s ∧ FirstProcess (fun _ _ => 0) l s ∧ Clean s :=
    wp_total (wp_userinit hl hv (fun hlong => absurd hlong (by decide))
      (fun s' hi hf hc => ⟨hi, hf, hc⟩) (fun s' _ hlt => by omega) fun _ _ hlt => by omega)
  have hlive : (s.pcb 0).state = .live := hf.state 0
  have hsz : (s.fs.proc 0).sz = PGSIZE := by rw [hf.fs]; rfl
  have hpres : ∀ v < pages (s.fs.proc 0).sz, s.pte (s.pcb 0).pgdir v ≠ none := by
    rw [hsz]
    exact fun v hv => (hf.exactly v (hv.trans (by decide))).mpr (lt_pages.mp hv)
  have hneeds : (forkNeeds (s.fs.proc 0).sz)[s.fs.freelist.length]? = none := by
    have hlong : (forkNeeds PGSIZE).length = 68 := by decide
    rw [hsz, List.getElem?_eq_none]
    have := hf.free
    rw [hlong]
    simp only [NPDENTRIES] at hlen
    omega
  have hone : ∀ np, (s.pcb np).state = .unused →
      (∀ q < np, (s.pcb q).state ≠ .unused) → np = 1 := by
    intro np hun hfirst
    have h0 : np ≠ 0 := by
      rintro rfl
      exact absurd (hlive.symm.trans hun) (by simp)
    by_contra hne
    exact hfirst 1 (by omega) (hf.state 1)
  -- the part of `fork` that is about files: no descriptor is open
  have hfs : ∀ np s', (s.pcb np).state = .unused → (∀ q < np, (s.pcb q).state ≠ .unused) →
      s'.fs = { s.fs with freelist := s'.fs.freelist } → (onFs (Xv6.fork 0 (some np))).wp
        (fun r s'' => ∃ fs, s'' = { s' with fs := fs } ∧ r = np) (fun _ _ => False) s' := by
    intro np s' hun hfirst hs'
    obtain rfl := hone np hun hfirst
    rw [hf.fs] at hs'
    obtain ⟨fs, page, pcb, failed, wrapped⟩ := s'
    generalize fs.freelist = free at hs'
    obtain rfl : fs = _ := hs'
    exact wp_of_run rfl ⟨_, rfl, rfl⟩
  obtain ⟨r, s', hrun, -, -, hforked⟩ :=
    wp_total (wp_fork_ends (hinv.space (by decide) (.inl hlive))
    (by simp [hlive]) (by rw [hsz]; decide) hpres (if_pos ⟨1, by decide, hf.state 1⟩).symm
    fun np s' hun hfirst hs' _ => hfs np s' hun hfirst hs')
  obtain ⟨np, hfk⟩ := hforked hneeds
  obtain rfl := hone np hfk.unused hfk.first
  have hfits : Call.fork.Fits := trivial
  exact ⟨s', .call (.userinit hr) (by decide) hlive hfits hrun,
    ⟨hfk.failed.trans hc.failed, hfk.wrapped.trans hc.wrapped⟩, by
      rw [hfk.other 0 (by decide), hlive],
    hfk.live, hfk.user 0 (by rw [hsz]; decide)⟩

/-- In every run in which no `kalloc` fails and no segment wraps, the pages on the free list, of
live and zombie processes and of open pipes are those that were free at boot, each in one place. So
`freevm` puts every page of an address space on the free list once, and it always succeeds. -/
theorem pages_conserved (hl : l.Nodup) (hv : ∀ g ∈ l, sy.Valid g) (h : Reachable sy l s)
    (hc : Clean s) :
    s.total = l.length ∧ (∀ g, s.fs.freelist.count g + s.others g = l.count g) ∧
      ∀ p < NPROC, (s.pcb p).Has → ∃ s', (freevm sy (s.pcb p).pgdir).run s = .ok () s' ∧
        ∀ g, s'.fs.freelist.count g = s.fs.freelist.count g + s.mass (s.pcb p).pgdir g := by
  have hinv := h.inv hl hv hc
  refine ⟨hinv.total_eq, hinv.own.count, fun p hp hhas => ?_⟩
  have hspace := hinv.space hp hhas
  obtain ⟨_, s', hr, hown⟩ : ∃ a s', (freevm sy (s.pcb p).pgdir).run s = .ok a s' ∧
      Own sy (l.count ·) (s.beside p) s' := wp_total (wp_freevm hspace fun s' ho _ _ => ho)
  refine ⟨s', hr, fun g => ?_⟩
  have h1 := hown.count g
  have h2 := hspace.count g
  omega

/-- The first process has forked, and the 1100 pages are free or of one of the two. -/
theorem pages_conserved_forked : ∃ s, Reachable twoPages (List.range' 300 1100) s ∧
    (s.pcb 1).state = .live ∧ s.total = 1100 := by
  obtain ⟨hl, hv⟩ := valid_1100
  obtain ⟨s, hr, hc, -, hlive, -⟩ := exists_forked hl hv (by decide +kernel)
  exact ⟨s, hr, hlive, (pages_conserved hl hv hr hc).1.trans List.length_range'⟩

end Start

/-! ### The memory of a process -/

/-- The byte that process `q` reads at address `PGSIZE*v + o`. -/
def State.mem (s : State) (q v o : Nat) : Option Byte :=
  (s.user (s.pcb q).pgdir v).map fun g => s.page g o

/-- What process `p` does at a time: a system call, or a store of user code at `PGSIZE*v + o`. -/
inductive ProcStep (sy : Symbols) (p : Nat) (s : State) : State → Prop
  | call {s' : State} {call : Call} {r : Int} (hfits : call.Fits)
      (hr : (call.code sy p).run s = .ok r s') : ProcStep sy p s s'
  | store {v o g : Nat} (b : Byte) (hv : v < NUSER) (ho : o < PGSIZE)
      (hg : s.user (s.pcb p).pgdir v = some g) : ProcStep sy p s (s.setPage g (upd (s.page g) o b))

/-- Any number of steps of processes that satisfy `P`. -/
abbrev Run (sy : Symbols) (P : Nat → Prop) : State → State → Prop :=
  Relation.ReflTransGen fun s s' => ∃ p < NPROC, P p ∧ (s.pcb p).state = .live ∧ ProcStep sy p s s'

/-- Process `q` has the pages it had, with the same contents. -/
structure Kept (q : Nat) (s s' : State) : Prop where
  pcb : ∃ c, s'.pcb q = { s.pcb q with parent := c }
  page : ∀ g, 0 < s.mass (s.pcb q).pgdir g → s'.page g = s.page g

section Kept

variable {sy : Symbols} {T : Nat → Nat} {s s' : State} {p q v g o : Nat}

lemma Kept.mem (h : Kept q s s') (hv : v < NUSER) : s'.mem q v o = s.mem q v o := by
  obtain ⟨c, hpcb⟩ := h.pcb
  obtain ⟨-, hpte, -⟩ := mass_of_pages h.page
  unfold State.mem
  rw [hpcb, user_congr (hpte v (hv.trans (by decide)))]
  cases hu : s.user (s.pcb q).pgdir v with
  | none => rfl
  | some g => simp [h.page g (mass_leaf hv (user_leaf hu))]

variable (h : Inv sy T s) (hp : p < NPROC) (hlp : (s.pcb p).state = .live) (hq : q < NPROC)
  (hl : (s.pcb q).state = .live)

include hq hl in
lemma mass_le_procs (hne : q ≠ p) (g : Nat) : s.mass (s.pcb q).pgdir g ≤ s.procs p g := by
  have := owned_le_procs hq hne s g
  rw [owned_of_has (.inl hl)] at this
  omega

include hq hl in
lemma Remapped.kept (hr : Remapped sy T (s.beside p) p s s') (hne : q ≠ p) : Kept q s s' := by
  refine ⟨⟨_, by rw [hr.pcb, upd_ne hne]⟩, fun g hg => hr.page g ?_⟩
  have := mass_le_procs hq hl hne g
  unfold State.beside
  omega

/-- A store is to a page of the user part, so it leaves the page tables alone. -/
lemma space_store {R : Nat → Nat} {d : Nat} (h : Space sy T R d s) (hv : v < NUSER)
    (hg : s.user d v = some g) (b : Bytes) : Space sy T R d (s.setPage g b) ∧
      (∀ j, (s.setPage g b).table d j = s.table d j) ∧
      ∀ w < NPAGES, (s.setPage g b).pte d w = s.pte d w :=
  h.views (State.setPage_ne (h.leaf_ne_dir hv (user_leaf hg)).symm)
    (fun _ hi _ ht => State.setPage_ne (h.leaf_ne_table hv (user_leaf hg) hi ht)) rfl

include h hp hlp in
lemma remapped_store (hv : v < NUSER) (hg : s.user (s.pcb p).pgdir v = some g) (b : Bytes) :
    Remapped sy T (s.beside p) p s (s.setPage g b) := by
  have hspace := h.space hp (.inl hlp)
  obtain ⟨hspace', htable, hpte⟩ := space_store hspace hv hg b
  refine ⟨(upd_eq_self ..).symm, hspace', (h.shape p hp hlp).congr htable hpte, h.sz_lt p hp hlp,
    (upd_eq_self ..).symm, rfl, h.settled, fun x hx => State.setPage_ne ?_⟩
  rintro rfl
  have := hspace.rest_zero (mass_leaf hv (user_leaf hg))
  omega

/-! ### System calls -/

include h hq hl in
/-- `wait` frees the pages of a zombie. -/
lemma kept_wait : (wait sy p).wp (fun _ s' => Kept q s s') AnyPanic s := by
  rw [wait]
  refine wp_bind.mpr (wp_act.mpr ?_)
  split_ifs
  swap
  · trivial
  simp only [wp_ret, id]
  cases hfind : s.zombieChild p with
  | none => exact ⟨⟨_, rfl⟩, fun _ _ => rfl⟩
  | some z =>
    obtain ⟨-, hz, hzombie, -⟩ := findFrom_some hfind
    rw [Nat.zero_add] at hz
    have hstate := (of_decide_eq_true hzombie).2
    have hqz : q ≠ z := by
      rintro rfl
      simp [hl] at hstate
    have hplus : Own sy T (plus (fun g => s.mass (s.pcb z).pgdir g +
        (s.procs z g + pipePage s.fs.file g)) (s.pcb z).kstack) s := by
      refine Own.congr (h.space hz (.inr hstate)) (fun g => ?_) rfl
      simp only [State.beside, plus]
      omega
    have hne : ∀ g, 0 < s.mass (s.pcb z).pgdir g + s.procs z g →
        (s.freed (s.pcb z).kstack).page g = s.page g := by
      intro g hg
      refine State.setPage_ne ?_
      rintro rfl
      have := hplus.le_one (s.pcb z).kstack
      rw [plus_same] at this
      omega
    refine wp_read.mpr (wp_bind.mpr (wp_kfree hplus fun h₁ => ?_))
    simp only [wp_write, wp_read, State.setPcb, upd_same]
    refine wp_bind.mpr (wp_freevm (R := fun g => s.procs z g + pipePage s.fs.file g)
      (Own.congr h₁ (fun g => ?_) rfl) fun s2 _ hf _ => ?_)
    · refine Nat.add_right_cancel_iff.mpr ((mass_of_pages fun x hx => ?_).2.2 g)
      exact hne x (Nat.add_pos_left hx _)
    · have hpcb := (congrFun hf.pcb q).trans (upd_ne hqz)
      refine ⟨⟨_, (upd_ne hqz).trans hpcb⟩, fun g hg => ?_⟩
      have := mass_le_procs hq hl hqz g
      exact (hf.page g (by omega)).trans (hne g (by omega))

include h hp hlp hq hl in
/-- `fork` takes free pages. -/
lemma kept_fork : (fork sy p).wp (fun _ s' => Clean s' → Kept q s s') AnyPanic s := by
  refine wp_fork h.own (by simp [hlp]) (h.sz_lt p hp hlp).le (parent_others hp hlp)
    (fun _ _ => ⟨⟨_, rfl⟩, fun _ _ => rfl⟩)
    (fun np g l s1 d s2 ha _ hd => wp_call (wp_onFs wp_true) ?_)
    fun _ _ _ _ hu hc => absurd hc (not_clean hu.failed)
  rintro r s4 ⟨fs, rfl, -⟩
  rw [wp_write]
  intro _
  have hf := hd.frame
  have hqn : q ≠ np := by
    rintro rfl
    simp [ha.unused] at hl
  have hpcb : s2.pcb q = s.pcb q := by rw [hf.pcb, ha.pcb, upd_ne hqn]
  refine ⟨⟨_, (upd_ne hqn).trans ((upd_ne hqn).trans hpcb)⟩, fun x hx => ?_⟩
  have h1 := mass_le_procs hq hl hqn x
  have h2 := others_eq ha.lt s x
  have h3 := le_plus s.others g x
  exact (hf.page x (by omega)).trans (by rw [ha.page])

include h hp hlp hq hl in
/-- A call of `p` leaves the others their memory. -/
lemma kept_call (hne : q ≠ p) {call : Call} (hfits : call.Fits) :
    (call.code sy p).wp (fun _ s' => Clean s' → Kept q s s') AnyPanic s := by
  obtain ⟨N, hN⟩ := h.settled
  have hspace := h.space hp (.inl hlp)
  have hpipe : ∀ g, pipePage s.fs.file g ≤ s.beside p g := fun g => by
    unfold State.beside
    omega
  have hfs : ∀ k : K Int, (onFs k).wp (fun _ s' => Clean s' → Kept q s s') AnyPanic s := by
    refine fun k => wp_mono (wp_onFs wp_true) ?_ fun _ _ he => he
    rintro a s' ⟨fs, rfl, -⟩ _
    exact ⟨⟨_, rfl⟩, fun _ _ => rfl⟩
  cases call with
  | fork => exact kept_fork h hp hlp hq hl
  | exec path argv junk =>
    exact wp_mono (clean_exec hN (h.sz_lt p hp hlp) (h.shape p hp hlp) hpipe hp hspace hfits)
      (fun _ _ hr hc => (hr hc).kept hq hl hne) fun _ _ _ => trivial
  | sbrk n =>
    exact wp_mono (clean_growproc hspace (h.sz_lt p hp hlp) (h.shape p hp hlp) hN hpipe n.toInt)
      (fun _ _ hr hc => (hr hc).kept hq hl hne) fun _ _ _ => trivial
  | pipe ptr => exact hfs _
  | close fd => exact hfs _
  | exit =>
    refine wp_call (wp_onFs wp_true) ?_
    rintro _ s1 ⟨fs, rfl, -⟩
    exact fun _ => ⟨⟨_, congrArg (Pcb.mk · _ _ _ _) (if_neg hne)⟩, fun _ _ => rfl⟩
  | wait => exact wp_mono (kept_wait h hq hl) (fun _ _ hk _ => hk) fun _ _ _ => trivial

/-! ### Runs -/

lemma ProcStep.clean (hs : ProcStep sy p s s') (hc : Clean s') : Clean s := by
  cases hs with
  | call hfits hr => exact (wp_ok (wp_sticky (sticky_code _)) hr).clean hc
  | store b hv ho hg => exact ⟨hc.failed, hc.wrapped⟩

include h hp hlp in
lemma Inv.step (hs : ProcStep sy p s s') (hc : Clean s') :
    Inv sy T s' ∧ ∀ q < NPROC, q ≠ p → (s.pcb q).state = .live → Kept q s s' := by
  cases hs with
  | call hfits hr =>
    exact ⟨wp_ok (h.call hp hlp hfits) hr hc, fun q hq hne hl =>
      wp_ok (kept_call h hp hlp hq hl hne hfits) hr hc⟩
  | store b hv ho hg =>
    have hr := remapped_store h hp hlp hv hg
    exact ⟨h.remapped hp hlp (hr _), fun q hq hne hl => (hr _).kept hq hl hne⟩

lemma Run.inv {P : Nat → Prop} (hr : Run sy P s s') (h : Clean s → Inv sy T s) (hc : Clean s') :
    Inv sy T s' ∧ ∀ q < NPROC, ¬ P q → (s.pcb q).state = .live →
      (s'.pcb q).state = .live ∧ ∀ v < NUSER, s'.mem q v = s.mem q v := by
  induction hr with
  | refl => exact ⟨h hc, fun q _ _ hl => ⟨hl, fun _ _ => rfl⟩⟩
  | tail _ hs ih =>
    obtain ⟨p, hp, hP, hlp, hs⟩ := hs
    obtain ⟨h₁, hmem⟩ := ih (hs.clean hc)
    obtain ⟨h₂, hkept⟩ := h₁.step hp hlp hs hc
    refine ⟨h₂, fun q hq hPq hl => ?_⟩
    obtain ⟨hl1, hmem⟩ := hmem q hq hPq hl
    have hk := hkept q hq (fun hqp => hPq (hqp ▸ hP)) hl1
    obtain ⟨c, hpcb⟩ := hk.pcb
    exact ⟨by rwa [hpcb], fun v hv => (funext fun _ => hk.mem hv).trans (hmem v hv)⟩

/-- As long as no `kalloc` fails, no segment wraps and the arguments of `exec` fit in a page, a live
process finds its memory as it was after any steps of the other processes. -/
theorem memory_isolated {l : List Nat} {s0 : State} (hnodup : l.Nodup) (hv : ∀ g ∈ l, sy.Valid g)
    (hboot : Reachable sy l s0) (hrun : Run sy (fun _ => True) s0 s) (hr : Run sy (· ≠ q) s s')
    (hc : Clean s') (hq : q < NPROC) (hl : (s.pcb q).state = .live) :
    (s'.pcb q).state = .live ∧ ∀ v < NUSER, s'.mem q v = s.mem q v :=
  (hr.inv (fun hc => (hrun.inv (hboot.inv hnodup hv) hc).1) hc).2 q hq (fun hne => hne rfl) hl

end Kept

/-- The first process has forked. The child writes the byte 7 at address 0, and the parent does not
see it. -/
theorem memory_isolated_forked : ∃ s s', Reachable twoPages (List.range' 300 1100) s ∧
    Run twoPages (· ≠ 0) s s' ∧ s'.mem 1 0 0 = some 7 ∧ (s'.pcb 0).state = .live ∧
    ∀ v < NUSER, s'.mem 0 v = s.mem 0 v := by
  obtain ⟨hl, hv⟩ := valid_1100
  obtain ⟨s, hr, hc, hlive, hlive1, g, hg⟩ := exists_forked hl hv (by decide +kernel)
  have hrun : Run twoPages (· ≠ 0) s (s.setPage g (upd (s.page g) 0 7)) :=
    .single ⟨1, by decide, by decide, hlive1, .store 7 (by decide) (by decide) hg⟩
  refine ⟨s, _, hr, hrun, ?_, memory_isolated hl hv hr .refl hrun ⟨hc.failed, hc.wrapped⟩
    (by decide) hlive⟩
  obtain ⟨-, -, hpte⟩ := space_store ((hr.inv hl hv hc).space (by decide) (.inl hlive1))
    (by decide) hg
    (upd (s.page g) 0 7)
  have hsame : (s.setPage g (upd (s.page g) 0 7)).user (s.pcb 1).pgdir 0 = some g :=
    (user_congr (hpte 0 (by decide))).trans hg
  exact (congrArg (Option.map _) hsame).trans (by simp)

end Xv6.Vm
