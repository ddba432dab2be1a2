import Xv6.Fs.Accounting
import Xv6.Vm.Copyout
import Xv6.Vm.Space
import Xv6.Vm.Process

/-!
# A new address space for a process

`growproc` and `exec` leave the process with an address space of its own, all pages of the old one
that are not in the new one back on the free list, and nothing else changed. `exec` builds the new
address space beside the old one, with calls into the file system in between.
-/

namespace Xv6.Vm

open Lib Prog

/-- Every page below `sz` has a page table, and nothing is mapped from `sz` on. A page below `sz`
need not be mapped: `growproc` unmaps all of them when asked for the size 0. -/
structure Shape (s : State) (d sz : Nat) : Prop where
  table : ∀ v < pages sz, s.table d (v / 1024) ≠ none
  fresh : ∀ v, pages sz ≤ v → v < NUSER → s.pte d v = none

/-- Process `p` has an address space of its own beside the pages of `R`, and nothing else has
changed. -/
structure Remapped (sy : Symbols) (T R : Nat → Nat) (p : Nat) (s s' : State) : Prop where
  pcb : s'.pcb = upd s.pcb p { s.pcb p with pgdir := (s'.pcb p).pgdir, esp := (s'.pcb p).esp }
  space : Space sy T R (s'.pcb p).pgdir s'
  shape : Shape s' (s'.pcb p).pgdir (s'.fs.proc p).sz
  sz_lt : (s'.fs.proc p).sz < KERNBASE
  proc : s'.fs.proc = upd s.fs.proc p { s.fs.proc p with sz := (s'.fs.proc p).sz }
  file : s'.fs.file = s.fs.file
  settled : ∃ N, Settled N s'.fs
  page : ∀ g, 0 < R g → s'.page g = s.page g

/-! ### `allocuvm` and `growproc` -/

/-- What `allocuvm` returns when there is memory. -/
inductive Grew (R : Nat → Nat) (d oldsz newsz : Nat) (s : State) : Nat → State → Prop
  | refused : Grew R d oldsz newsz s 0 s
  | already (hlt : newsz < oldsz) : Grew R d oldsz newsz s oldsz s
  | grown {s' : State} (hle : oldsz ≤ newsz) (hlt : newsz < KERNBASE)
      (hf : Paged R zero d (pages oldsz) (pages newsz - pages oldsz) s s') :
        Grew R d oldsz newsz s newsz s'

section Growproc

variable {sy : Symbols} {T R : Nat → Nat} {s s' : State} {d p sz oldsz newsz r : Nat}

lemma Exactly.shape (h : Exactly s d sz) (hsz : sz ≤ KERNBASE) : Shape s d sz :=
  ⟨fun _ hv => h.table hsz hv, fun _ hv hvu => h.fresh hv hvu⟩

lemma Shape.start (h : Shape s d sz) (hne : pages sz % 1024 ≠ 0) :
    s.table d (pages sz / 1024) ≠ none := by
  have := h.table (pages sz - 1) (by omega)
  rwa [show (pages sz - 1) / 1024 = pages sz / 1024 by omega] at this

lemma Shape.congr (h : Shape s d sz) (ht : ∀ j, s'.table d j = s.table d j)
    (hp : ∀ v < NPAGES, s'.pte d v = s.pte d v) : Shape s' d sz where
  table v hv := by
    rw [ht]
    exact h.table v hv
  fresh v hv hvu := by
    rw [hp v (hvu.trans (by decide))]
    exact h.fresh v hv hvu

lemma Grew.frame (h : Grew R d oldsz newsz s r s') : Frame R s s' := by
  cases h with
  | refused => exact Frame.refl R s
  | already => exact Frame.refl R s
  | grown _ _ hf => exact hf.frame

lemma Grew.shape (h : Grew R d oldsz newsz s r s') (hs : Shape s d oldsz) :
    Shape s' d (if r = 0 then oldsz else r) := by
  cases h with
  | refused =>
    rw [if_pos rfl]
    exact hs
  | already =>
    split_ifs <;> exact hs
  | grown hle hlt hf =>
    have hmono := pages_mono hle
    have hnew : Shape s' d newsz := by
      refine ⟨fun v hv hnone => ?_, fun v hv hvu => ?_⟩
      · by_cases hold : v < pages oldsz
        · exact hf.table _ (hs.table v hold) hnone
        · exact hf.mapped (by omega) (by omega) (pte_of_no_table hnone)
      · rw [hf.old v (hvu.trans (by decide)) (by omega)]
        exact hs.fresh v (by omega) hvu
    split_ifs with h0
    · obtain rfl : oldsz = newsz := by omega
      exact hnew
    · exact hnew

lemma Grew.exactly (h : Grew R d oldsz newsz s r s') (hex : Exactly s d oldsz)
    (hold : oldsz < KERNBASE) (hr : r ≠ 0) :
    newsz ≤ r ∧ oldsz ≤ r ∧ r < KERNBASE ∧ Exactly s' d r := by
  cases h with
  | refused => exact absurd rfl hr
  | already hlt => exact ⟨hlt.le, le_rfl, hold, hex⟩
  | grown hle hlt hf => exact ⟨le_rfl, hle, hlt, hex.paged hle hf⟩

lemma Grew.kept (h : Grew R d oldsz newsz s r s') (hex : Exactly s d oldsz) (hr : r = 0) :
    Exactly s' d oldsz := by
  cases h with
  | refused => exact hex
  | already => exact hex
  | grown hle _ hf =>
    obtain rfl : oldsz = newsz := by omega
    exact hex.paged le_rfl hf

lemma Grew.kernel (h : Grew R d oldsz newsz s r s') (v : Nat) (hv : NUSER ≤ v) (hvp : v < NPAGES) :
    s'.pte d v = s.pte d v := by
  cases h with
  | refused => rfl
  | already => rfl
  | grown hle hlt hf =>
    have hbound := pages_le hlt.le
    have hmono := pages_mono hle
    exact hf.old v hvp (by omega)

lemma clean_allocuvm (h : Space sy T R d s) (hs : Shape s d oldsz) :
    (allocuvm sy d oldsz newsz).wp (fun r s' => Clean s' → Space sy T R d s' ∧
      Grew R d oldsz newsz s r s') AnyPanic s := by
  by_cases hlarge : KERNBASE ≤ newsz
  · rw [allocuvm, if_pos hlarge]
    exact fun _ => ⟨h, .refused⟩
  by_cases hless : newsz < oldsz
  · rw [allocuvm, if_neg hlarge, if_pos hless]
    exact fun _ => ⟨h, .already hless⟩
  refine wp_allocuvm h (by omega) (by omega) hs.fresh hs.start (fun s' _ h' hf _ _ => ?_)
    (fun s' _ _ hfail hc => ?_) fun s' _ _ _ hfail hc => ?_
  · exact ⟨h', .grown (by omega) (by omega) hf⟩
  · exact absurd hc (not_clean hfail)
  · exact absurd hc (not_clean hfail)

/-- `s'` is `s` with another size of process `p`, and with the free list and the address space
changed. -/
lemma Frame.remapped (hf : Frame R s s') (h : Space sy T R (s.pcb p).pgdir s')
    (hs : Shape s' (s.pcb p).pgdir sz) (hsz : sz < KERNBASE) {N : Nat → Nat} (hN : Settled N s.fs)
    (hpipe : ∀ g, pipePage s.fs.file g ≤ R g) : Remapped sy T R p s (s'.setSz p sz) := by
  have hpcb : (s'.setSz p sz).pcb = s.pcb := hf.pcb
  have hfs := hf.fs
  refine ⟨?_, ?_, ?_, ?_, ?_, ?_, ?_, hf.page⟩
  · rw [hpcb, upd_eq_self]
  · rw [hpcb]
    exact h.congr rfl rfl
  · rw [hpcb, setSz_sz]
    exact hs.congr (fun _ => rfl) fun _ _ => rfl
  · rw [setSz_sz]
    exact hsz
  · rw [setSz_sz, State.setSz, hfs]
    rfl
  · rw [State.setSz, hfs]
    rfl
  · obtain ⟨N', hN'⟩ := hN.refree hfs fun g => by
      have h1 : _ + (_ + _) ≤ 1 := Own.le_one h g
      have h2 := hpipe g
      omega
    exact ⟨N', hN'.setProc (p := p) (u := fun pr => { pr with sz := sz })
      (fun _ => rfl) fun _ => rfl⟩

lemma setSz_self : s.setSz p (s.fs.proc p).sz = s := by
  unfold State.setSz State.setProc
  rw [upd_eq_self]

/-- `growproc` leaves an address space to the process, whatever the size. -/
lemma clean_growproc (h : Space sy T R (s.pcb p).pgdir s) (hsz : (s.fs.proc p).sz < KERNBASE)
    (hs : Shape s (s.pcb p).pgdir (s.fs.proc p).sz) {N : Nat → Nat} (hN : Settled N s.fs)
    (hpipe : ∀ g, pipePage s.fs.file g ≤ R g) (n : Int) :
    (growproc sy p n).wp (fun _ s' => Clean s' → Remapped sy T R p s s') AnyPanic s := by
  have hset : ∀ {s' z}, Frame R s s' → Space sy T R (s.pcb p).pgdir s' →
      Shape s' (s.pcb p).pgdir z →
      z < KERNBASE → (setSize p z).wp (fun _ s' => Clean s' →
        Remapped sy T R p s s') AnyPanic s' := by
    intro s' z hf h' hs' hz
    exact wp_of_run (run_setSize (hf.pgdir_ne_zero h)) fun _ => hf.remapped h' hs' hz hN hpipe
  have hsame : ∀ {s'}, Frame R s s' → Space sy T R (s.pcb p).pgdir s' →
      Shape s' (s.pcb p).pgdir (s.fs.proc p).sz → Remapped sy T R p s s' := by
    intro s' hf h' hs'
    have hfs : (s'.fs.proc p).sz = (s.fs.proc p).sz := by rw [hf.fs]
    rw [← setSz_self (s := s') (p := p), hfs]
    exact hf.remapped h' hs' hsz hN hpipe
  rw [growproc, wp_read, wp_read]
  split_ifs
  · refine wp_clean (clean_allocuvm h hs) (fun r => ?_) fun r s1 _ hpost => ?_
    · split_ifs
      · trivial
      · exact sticky_setSize
    · obtain ⟨h₁, hg⟩ := hpost
      have hshape := hg.shape hs
      split_ifs with h0
      · rw [if_pos h0] at hshape
        exact fun _ => hsame hg.frame h₁ hshape
      · rw [if_neg h0] at hshape
        refine hset hg.frame h₁ hshape ?_
        cases hg with
        | refused => exact absurd rfl h0
        | already => exact hsz
        | grown _ hlt _ => exact hlt
  · generalize hnew : ((((s.fs.proc p).sz : Int) + n) % 2 ^ 32).toNat = newsz
    dsimp only
    by_cases hlt : newsz < (s.fs.proc p).sz
    · have hskip : Skips s (s.pcb p).pgdir (pages newsz) := by
        intro ht
        refine .inr fun w hw hwu => hs.fresh w ?_ hwu
        by_contra hlt'
        exact hs.table (pages newsz) (by omega) ht
      have hmono := pages_mono hlt.le
      refine wp_bind.mpr (wp_deallocuvm h hsz.le hlt hskip fun s1 h₁ hc => ?_)
      have hfresh : ∀ v, pages newsz ≤ v → v < NUSER → s1.pte (s.pcb p).pgdir v = none := by
        intro v hv hvu
        rw [hc.pte v (hvu.trans (by decide))]
        split_ifs with hin
        · rfl
        · exact hs.fresh v (by omega) hvu
      split_ifs with h0
      · refine fun _ => hsame hc.frame h₁ ⟨fun v hv => ?_, fun v hv hvu => hfresh v (by omega) hvu⟩
        rw [hc.table]
        exact hs.table v hv
      · refine hset hc.frame h₁ ⟨fun v hv => ?_, hfresh⟩ (by omega)
        rw [hc.table]
        exact hs.table v (by omega)
    · rw [deallocuvm, if_pos (by omega), pure_bind]
      split_ifs
      · exact fun _ => hsame (Frame.refl R s) h hs
      · exact hset (Frame.refl R s) h hs hsz
  · exact hset (Frame.refl R s) h hs hsz

end Growproc

/-! ### Building an address space -/

/-- The kernel since `s0`: the call holds the inodes `H` and has locked `L`, and the pages of `R`
are as they were. -/
structure Since (R : Nat → Nat) (H L : List Nat) (s0 s : State) : Prop where
  books : ∃ N, Books s0.fs.proc (ofiles s0.fs.proc) [] N (cwds s0.fs.proc) H L s.fs
  file : s.fs.file = s0.fs.file
  pcb : s.pcb = s0.pcb
  page : ∀ g, 0 < R g → s.page g = s0.page g

/-- An address space of `sz` bytes with directory `d` is being built. -/
structure Building (sy : Symbols) (T R : Nat → Nat) (d sz : Nat) (H L : List Nat) (s0 s : State) :
    Prop where
  since : Since R H L s0 s
  space : Space sy T R d s
  exactly : Exactly s d sz
  sz_lt : sz < KERNBASE

section Build

variable {α : Type} {sy : Symbols} {T R : Nat → Nat} {H L : List Nat} {s0 s s' : State}
  {d v g sz e : Nat} {b : Bytes}

lemma Since.frame (h : Since R H L s0 s) (hf : Frame R s s')
    (hfree : ∀ g, s'.fs.freelist.count g + pipePage s0.fs.file g ≤ 1) : Since R H L s0 s' := by
  obtain ⟨N, hN⟩ := h.books
  refine ⟨?_, ?_, hf.pcb.trans h.pcb, fun g hg => (hf.page g hg).trans (h.page g hg)⟩
  · have hbooks := hN.setFree (l := s'.fs.freelist)
      (fun g => by rw [h.file]; exact hfree g) s.fs.input
    rw [hf.fs]
    exact ⟨_, hbooks⟩
  · rw [hf.fs]
    exact h.file

/-- The pages of pipes are among those of `R`. -/
lemma Own.pipe_le {P : Nat → Nat} {f : Nat → File} (h : Own sy T P s)
    (hpipe : ∀ g, pipePage f g ≤ R g)
    (hP : ∀ g, R g ≤ P g) (g : Nat) : s.fs.freelist.count g + pipePage f g ≤ 1 := by
  have h1 := h.le_one g
  have h2 := hpipe g
  have h3 := hP g
  omega

lemma wp_onFs {q : K α} {Q : α → Xv6.State → Prop} (h : q.wp Q AnyStop s.fs) :
    (onFs q).wp (fun a s' => ∃ fs, s' = { s with fs := fs } ∧ Q a fs) AnyPanic s := by
  unfold onFs
  refine wp_mono (wp_lift ?_ ?_ ?_ h) (fun _ _ h' => h') fun _ _ _ => trivial
  · exact fun _ _ => rfl
  · exact fun _ _ _ => rfl
  · exact fun _ => rfl

/-- A call into the file system that works on the inode cache only. -/
lemma Since.onFs {q : K α} {I M : α → List Nat} (h : Since R H L s0 s)
    (hq : Acc s.fs (fun k => inodeFiles s.fs.file k + cwds s0.fs.proc k) H L q I M) :
    (onFs q).wp (fun a s' => Since R (I a) (M a) s0 s' ∧ s'.page = s.page ∧
      ∀ g, s'.fs.freelist.count g = s.fs.freelist.count g) AnyPanic s := by
  obtain ⟨N, hN⟩ := h.books
  refine wp_mono (wp_onFs (hN.lift hq)) ?_ fun _ _ _ => trivial
  rintro a s' ⟨fs, rfl, hb, hfile⟩
  refine ⟨⟨⟨N, hb⟩, hfile.trans h.file, h.pcb, h.page⟩, rfl, fun g => ?_⟩
  have h1 := hb.table.pages g
  have h2 := hN.table.pages g
  rw [hfile] at h1
  change fs.freelist.count g = _
  omega

lemma Space.congr_count (h : Space sy T R d s) (hp : s'.page = s.page)
    (hf : ∀ g, s'.fs.freelist.count g = s.fs.freelist.count g) : Space sy T R d s' where
  count g := by
    rw [hf, mass_of_page hp]
    exact h.count g
  once := h.once
  valid := h.valid

lemma pte_of_page (h : s'.page = s.page) (hv : v < NPAGES) : s'.pte d v = s.pte d v :=
  pte_congr (by rw [h]) (fun _ _ _ _ => by rw [h]) hv

lemma Exactly.congr (h : Exactly s d sz) (hp : ∀ v < NPAGES, s'.pte d v = none ↔ s.pte d v = none) :
    Exactly s' d sz := fun v hv => (not_congr (hp v (hv.trans (by decide)))).trans (h v hv)

lemma Building.onFs {q : K α} {I M : α → List Nat} (h : Building sy T R d sz H L s0 s)
    (hq : Acc s.fs (fun k => inodeFiles s.fs.file k + cwds s0.fs.proc k) H L q I M) :
    (onFs q).wp (fun a s' => Building sy T R d sz (I a) (M a) s0 s' ∧
      s'.page = s.page) AnyPanic s := by
  refine wp_mono (h.since.onFs hq) (fun a s' h' => ⟨⟨h'.1, h.space.congr_count h'.2.1 h'.2.2,
    h.exactly.congr fun v hv => ?_, h.sz_lt⟩, h'.2.1⟩) fun _ _ _ => trivial
  rw [pte_of_page h'.2.1 hv]

/-- A change of the address space alone. -/
lemma Building.frame (h : Building sy T R d sz H L s0 s) (hf : Frame R s s')
    (h' : Space sy T R d s') {sz' : Nat} (hex : Exactly s' d sz') (hsz : sz' < KERNBASE)
    (hpipe : ∀ g, pipePage s0.fs.file g ≤ R g) : Building sy T R d sz' H L s0 s' :=
  ⟨h.since.frame hf (Own.pipe_le h' hpipe fun _ => Nat.le_add_left ..), h', hex, hsz⟩

/-! ### `loaduvm` -/

/-- An invariant that holds while a program is loaded into the address space `d`, with its size so
far: it allows for changes of the user part that keep to the size, and for reading the file. -/
structure Loading (sy : Symbols) (T R : Nat → Nat) (p ip d : Nat) (I : Nat → State → Prop) :
    Prop where
  space : ∀ {sz s}, I sz s → Space sy T R d s
  exactly : ∀ {sz s}, I sz s → Exactly s d sz
  sz_lt : ∀ {sz s}, I sz s → sz < KERNBASE
  frame : ∀ {sz sz' s s'}, I sz s → Frame R s s' → Space sy T R d s' → Exactly s' d sz' →
    sz' < KERNBASE → (∀ v, NUSER ≤ v → v < NPAGES → s'.pte d v = s.pte d v) → I sz' s'
  readi : ∀ {sz s} off n, I sz s →
    (onFs (readi p ip off n)).wp (fun _ s' => I sz s' ∧ s'.page = s.page) AnyPanic s

lemma Building.loading (hpipe : ∀ g, pipePage s0.fs.file g ≤ R g) {p ip : Nat} (hip : ip < NINODE) :
    Loading sy T R p ip d fun sz s => Building sy T R d sz H L s0 s where
  space h := h.space
  exactly h := h.exactly
  sz_lt h := h.sz_lt
  frame h hf h' hex hsz _ := h.frame hf h' hex hsz hpipe
  readi _ _ h := h.onFs (acc_readi hip)

section Load

variable {p ip offset filesz : Nat} {I : Nat → State → Prop} (hI : Loading sy T R p ip d I)

include hI

/-- A page of the user part is written. -/
lemma Loading.setLeaf (h : I sz s) (hv : v < NUSER) (hg : s.leaf d v = some g) :
    I sz (s.setPage g b) := by
  have hsp := hI.space h
  obtain ⟨h', -, hpte⟩ := hsp.views (u := s.setPage g b)
    (State.setPage_ne (hsp.leaf_ne_dir hv hg).symm)
    (fun i hi t ht => State.setPage_ne (hsp.leaf_ne_table hv hg hi ht)) rfl
  have hR : R g = 0 := hsp.rest_zero (mass_leaf hv hg)
  exact hI.frame h (frame_setPage hR) h' ((hI.exactly h).congr fun v hv => by rw [hpte v hv])
    (hI.sz_lt h) fun v _ hv => hpte v hv

lemma wp_loaduvmLoop {c : Nat} : ∀ fuel j s, I sz s → PGSIZE * c + filesz ≤ sz →
    (loaduvmLoop d (PGSIZE * c) p ip offset filesz (PGSIZE * j) fuel).wp (fun _ s' => I sz s')
      AnyPanic s := by
  intro fuel
  induction fuel with
  | zero => exact fun _ _ h _ => h
  | succ fuel ih =>
    intro j s h hle
    rw [loaduvmLoop]
    by_cases hlt : PGSIZE * j < filesz
    swap
    · rw [if_neg hlt]
      exact h
    rw [if_pos hlt]
    have hv : c + j < NUSER := by
      have := hI.sz_lt h
      simp only [PGSIZE, NUSER, KERNBASE] at *
      omega
    have hvp : c + j < NPAGES := hv.trans (by decide)
    have haddr : (PGSIZE * c + PGSIZE * j) % 2 ^ 32 = PGSIZE * (c + j) := by
      simp only [PGSIZE, NUSER] at *
      omega
    have hmapped : s.pte d (c + j) ≠ none := by
      refine (hI.exactly h _ hv).mpr ?_
      rw [Nat.mul_add]
      omega
    rw [haddr]
    cases ht : s.table d ((c + j) / 1024) with
    | none => exact absurd (pte_of_no_table ht) hmapped
    | some t =>
      refine wp_bind.mpr (wp_of_run (run_walkpgdir_found hvp ht false) ?_)
      simp only [wp_read]
      have hp : present (s.word t ((c + j) % 1024)) = true := by
        by_contra hp
        rw [pte_of_table ht, valid_of_not hp] at hmapped
        exact hmapped rfl
      have hleaf : s.leaf d (c + j) = some (frame (s.word t ((c + j) % 1024))) := by
        rw [State.leaf, pte_of_table ht, valid_of_present hp, Option.map_some]
      generalize (if filesz - PGSIZE * j < PGSIZE then filesz - PGSIZE * j else PGSIZE) = n
      refine wp_call (hI.readi _ n h) fun r s1 h₁ => ?_
      have hleaf1 : s1.leaf d (c + j) = some (frame (s.word t ((c + j) % 1024))) := by
        rw [leaf_congr (pte_of_page h₁.2 hvp)]
        exact hleaf
      simp only [wp_write]
      have h₂ := hI.setLeaf (b :=
        (s1.page (frame (s.word t ((c + j) % 1024)))).splice 0 r.2) h₁.1 hv
        hleaf1
      split_ifs
      · exact h₂
      · exact ih (j + 1) _ h₂ hle

lemma wp_loaduvm {addr : Nat} (h : I sz s) (hle : addr + filesz ≤ sz) :
    (loaduvm d addr p ip offset filesz).wp (fun _ s' => I sz s') AnyPanic s := by
  rw [loaduvm]
  split_ifs with hal
  · trivial
  · have haddr : addr = PGSIZE * (addr / PGSIZE) := by
      simp only [PGSIZE] at *
      omega
    rw [haddr]
    exact wp_loaduvmLoop hI _ 0 s h (by rw [← haddr]; exact hle)

end Load

/-! ### The user stack -/

/-- `e & ~PTE_U`. -/
lemma clear_user (he : e < 2 ^ 32) : frame (e &&& (2 ^ 32 - 1 - PTE_U)) = frame e ∧
    present (e &&& (2 ^ 32 - 1 - PTE_U)) = present e ∧ e &&& (2 ^ 32 - 1 - PTE_U) < 2 ^ 32 ∧
    e &&& (2 ^ 32 - 1 - PTE_U) &&& PTE_U = 0 := by
  refine ⟨?_, ?_, Nat.and_lt_two_pow _ (by decide), ?_⟩
  · have hlt : e / 2 ^ 12 < 2 ^ 20 := by omega
    change (e &&& (2 ^ 32 - 1 - PTE_U)) / 2 ^ 12 = e / 2 ^ 12
    rw [Nat.and_div_two_pow, show (2 ^ 32 - 1 - PTE_U) / 2 ^ 12 = 2 ^ 20 - 1 by decide,
      Nat.and_two_pow_sub_one_eq_mod, Nat.mod_eq_of_lt hlt]
  · unfold present
    rw [Nat.and_assoc]
    rfl
  · rw [Nat.and_assoc]
    exact Nat.and_zero e

/-- The guard page stays mapped, and user code cannot use it. -/
lemma wp_clearpteu {p ip : Nat} {I : Nat → State → Prop} (hI : Loading sy T R p ip d I) (h : I sz s)
    (hv : v < NUSER) : (clearpteu d (PGSIZE * v)).wp (fun _ s' => I sz s' ∧
      s'.user d v = none) AnyPanic s := by
  have hvp : v < NPAGES := hv.trans (by decide)
  have hsp := hI.space h
  rw [clearpteu]
  cases ht : s.table d (v / 1024) with
  | none => exact wp_bind.mpr (wp_of_run (run_walkpgdir_missing hvp ht) trivial)
  | some t =>
    refine wp_bind.mpr (wp_of_run (run_walkpgdir_found hvp ht false) ?_)
    obtain ⟨hframe, hpresent, hlt, hclear⟩ := clear_user (s.word_lt t (v % 1024))
    obtain ⟨htable, hpte⟩ := hsp.pte_setWord hvp ht hlt
    obtain ⟨u, hu⟩ : ∃ u, u = s.setWord t (v % 1024)
        (s.word t (v % 1024) &&& (2 ^ 32 - 1 - PTE_U)) :=
      ⟨_, rfl⟩
    rw [← hu] at htable hpte
    -- the entry still refers to the same page
    have hsame : u.leaf d v = s.leaf d v ∧ (u.pte d v = none ↔ s.pte d v = none) ∧
        u.user d v = none := by
      rw [State.leaf, State.leaf, State.user, hpte v hvp, if_pos rfl, pte_of_table ht]
      unfold valid
      rw [hpresent]
      split_ifs
      · exact ⟨congrArg some hframe, by simp, if_pos hclear⟩
      · simp
    have hmass : ∀ g, u.mass d g = s.mass d g := by
      intro g
      have hm := mass_change (u := u) hv (fun i _ => htable i)
        (fun w hw hne => by rw [hpte w (hw.trans (by decide)), if_neg hne]) g
      rw [hsame.1] at hm
      omega
    have hR : R t = 0 := hsp.rest_zero (mass_table (div_lt_tables hvp) ht)
    change I sz (s.setWord t (v % 1024) (s.word t (v % 1024) &&& (2 ^ 32 - 1 - PTE_U))) ∧
      (s.setWord t (v % 1024) (s.word t (v % 1024) &&& (2 ^ 32 - 1 - PTE_U))).user d v = none
    rw [← hu]
    have hf : u.fs = s.fs := by rw [hu]; rfl
    refine ⟨hI.frame h (by rw [hu]; exact frame_setWord hR) (Own.congr hsp (fun g => by rw [hmass])
      (by rw [hf])) ((hI.exactly h).congr fun w hw => ?_) (hI.sz_lt h) fun w hk hw => ?_, hsame.2.2⟩
    · by_cases hwv : w = v
      · rw [hwv]
        exact hsame.2.1
      · rw [hpte w hw, if_neg hwv]
    · rw [hpte w hw, if_neg (by omega)]

lemma wp_copyoutLoop (hpipe : ∀ g, pipePage s0.fs.file g ≤ R g) : ∀ fuel va (src : List Byte) s,
    Building sy T R d sz H L s0 s → va + src.length ≤ KERNBASE →
    (copyoutLoop d va src fuel).wp (fun _ s' => Building sy T R d sz H L s0 s') AnyPanic s := by
  intro fuel
  induction fuel with
  | zero => exact fun _ _ _ h _ => h
  | succ fuel ih =>
    intro va src s h hle
    rw [copyoutLoop]
    by_cases hlen : src.length = 0
    · rw [if_pos hlen]
      exact h
    rw [if_neg hlen]
    have hva : PGROUNDDOWN va = PGSIZE * (va / PGSIZE) := Nat.mul_comm ..
    have hv : va / PGSIZE < NUSER := by
      simp only [PGSIZE, NUSER, KERNBASE] at *
      omega
    dsimp only
    rw [hva]
    refine wp_bind.mpr (wp_uva2ka (hv.trans (by decide)) (fun _ => trivial) fun _ => ?_)
    cases hu : s.user d (va / PGSIZE) with
    | none => exact h
    | some g =>
      simp only [wp_write]
      refine ih _ _ _ ((Building.loading hpipe (p := 0) (show 0 < NINODE by decide)).setLeaf h hv
        (user_leaf hu)) ?_
      rw [List.length_drop]
      simp only [PGSIZE, KERNBASE] at *
      omega

lemma wp_copyout (hpipe : ∀ g, pipePage s0.fs.file g ≤ R g) {a : Nat} {src : List Byte}
    (h : Building sy T R d sz H L s0 s) (hle : a + src.length ≤ KERNBASE) :
    (copyout d a src).wp (fun _ s' => Building sy T R d sz H L s0 s') AnyPanic s :=
  wp_copyoutLoop hpipe _ _ _ _ h hle

/-- The bytes of argument strings. -/
def argBytes (argv : List (List Byte)) : Nat := (argv.map fun arg => arg.length + 1).sum

/-- Where the stack pointer is after the arguments were pushed: each may take three bytes more. -/
lemma wp_pushArgs (hpipe : ∀ g, pipePage s0.fs.file g ≤ R g) (argv : List (List Byte)) :
    ∀ sp argc ustack s, Building sy T R d sz H L s0 s → sp ≤ KERNBASE →
    argBytes argv + 3 * (MAXARG - argc) ≤ sp →
    (pushArgs d sp argc ustack argv).wp (fun r s' => Building sy T R d sz H L s0 s' ∧
      ∀ sp' us, r = some (sp', us) → sp' ≤ sp ∧ sp ≤ sp' + argBytes argv + 3 * (MAXARG - argc) ∧
        (argc ≤ MAXARG → argc + argv.length ≤ MAXARG) ∧ us.length = ustack.length + argv.length)
      AnyPanic s := by
  induction argv with
  | nil =>
    intro sp argc ustack s h _ _
    refine ⟨h, fun sp' us he => ?_⟩
    cases he
    exact ⟨le_rfl, by omega, fun hle => hle, rfl⟩
  | cons arg argv ih =>
    intro sp argc ustack s h hsp hroom
    have hbytes : argBytes (arg :: argv) = arg.length + 1 + argBytes argv := List.sum_cons
    rw [hbytes] at hroom
    rw [pushArgs]
    by_cases hmax : MAXARG ≤ argc
    · rw [if_pos hmax]
      exact ⟨h, fun _ _ he => by cases he⟩
    rw [if_neg hmax]
    have hkern : KERNBASE < 2 ^ 32 := by decide
    have hnew : (sp + 2 ^ 32 - (arg.length + 1) % 2 ^ 32) % 2 ^ 32 = sp - (arg.length + 1) := by
      rw [Nat.mod_eq_of_lt (show arg.length + 1 < 2 ^ 32 by omega),
        show sp + 2 ^ 32 - (arg.length + 1) = sp - (arg.length + 1) + 2 ^ 32 by omega,
        Nat.add_mod_right, Nat.mod_eq_of_lt (by omega)]
    rw [hnew]
    generalize hsp' : (sp - (arg.length + 1)) / 4 * 4 = sp'
    refine wp_call (wp_copyout hpipe h (a := sp') ?_) fun r s1 h₁ => ?_
    · rw [List.length_append, List.length_singleton]
      omega
    cases r with
    | false => exact ⟨h₁, fun _ _ he => by cases he⟩
    | true =>
      refine wp_mono (ih sp' (argc + 1) _ s1 h₁ (by omega) (by omega)) (fun r s2 h₂ => ⟨h₂.1, ?_⟩)
        fun _ _ _ => trivial
      intro sp'' us he
      obtain ⟨h1, h2, h3, h4⟩ := h₂.2 sp'' us he
      rw [hbytes, List.length_cons]
      rw [List.length_append, List.length_singleton] at h4
      exact ⟨by omega, by omega, fun _ => by have := h3 (by omega); omega, by omega⟩

lemma length_wordBytes (us : List Nat) : (us.flatMap wordBytes).length = 4 * us.length := by
  induction us with
  | nil => rfl
  | cons e us ih =>
    rw [List.flatMap_cons, List.length_append, ih, List.length_cons]
    simp [wordBytes]
    omega

lemma wp_execStack (hpipe : ∀ g, pipePage s0.fs.file g ≤ R g) {argv : List (List Byte)} {top : Nat}
    (h : Building sy T R d sz H L s0 s) (htop : top ≤ KERNBASE) (hmin : 2 * PGSIZE ≤ top)
    (hfits : argBytes argv ≤ PGSIZE) :
    (execStack d top argv).wp (fun _ s' => Building sy T R d sz H L s0 s') AnyPanic s := by
  refine wp_call (wp_pushArgs hpipe argv top 0 [] s h htop ?_) fun r s1 h₁ => ?_
  · simp only [PGSIZE, MAXARG] at *
    omega
  obtain ⟨h₁, hres⟩ := h₁
  cases r with
  | none => exact h₁
  | some x =>
    obtain ⟨sp, us⟩ := x
    obtain ⟨hle, hge, hargc, hlen⟩ := hres sp us rfl
    have hargc := hargc (Nat.zero_le _)
    have hsp : (3 + argv.length + 1) * 4 ≤ sp := by
      simp only [PGSIZE, MAXARG] at *
      omega
    have hva : (sp + 2 ^ 32 - (3 + argv.length + 1) * 4) % 2 ^ 32 = sp -
        (3 + argv.length + 1) * 4 := by
      have hkern : KERNBASE < 2 ^ 32 := by decide
      rw [show sp + 2 ^ 32 - (3 + argv.length + 1) * 4 = sp - (3 + argv.length + 1) * 4 +
        2 ^ 32 by omega,
        Nat.add_mod_right, Nat.mod_eq_of_lt (by omega)]
    dsimp only
    rw [hva]
    refine wp_call (wp_copyout hpipe h₁ ?_) fun r s2 h₂ => ?_
    · rw [length_wordBytes]
      simp only [List.length_append, List.length_cons, List.length_nil] at *
      omega
    · cases r <;> exact h₂

end Build

/-! ### `exec` -/

section Exec

variable {sy : Symbols} {T R : Nat → Nat} {H L : List Nat} {s0 s s' : State}
  {d sz p ip : Nat} {argv : List (List Byte)}

lemma Grants.loaduvmLoop {J : State → State → Prop} (hJ : Grants J)
    (hfs : ∀ off n, (onFs (readi p ip off n)).acts J) {addr offset filesz : Nat} :
    ∀ n i, (loaduvmLoop d addr p ip offset filesz i n).acts J
  | 0, _ => trivial
  | n + 1, i => by
    rw [Vm.loaduvmLoop]
    by_cases hlt : i < filesz
    · rw [if_pos hlt]
      refine acts_bind hJ.walkpgdir fun r => ?_
      cases r with
      | none => trivial
      | some x =>
        refine acts_bind hJ.read fun pte => ?_
        generalize (if filesz - i < PGSIZE then filesz - i else PGSIZE) = m
        refine acts_bind (hfs _ _) fun r => acts_bind hJ.setPage fun _ => ?_
        split_ifs
        · trivial
        · exact Grants.loaduvmLoop hJ hfs n _
    · rw [if_neg hlt]
      trivial

lemma Grants.loaduvm {J : State → State → Prop} (hJ : Grants J)
    (hfs : ∀ off n, (onFs (readi p ip off n)).acts J) {addr offset filesz : Nat} :
    (loaduvm d addr p ip offset filesz).acts J := by
  unfold Vm.loaduvm
  split_ifs
  · trivial
  · exact hJ.loaduvmLoop hfs _ _

lemma sticky_execSegment {offset vaddr filesz memsz : Nat} :
    (execSegment sy p ip d sz offset vaddr filesz memsz).acts Sticky := by
  refine acts_bind (sticky_write fun _ => ⟨id, fun h => (Bool.or_eq_false_iff.mp h).1⟩)
    fun _ => acts_bind sticky_allocuvm fun sz' => acts_ite trivial ?_
  exact acts_bool (grants_sticky.loaduvm fun _ _ => sticky_onFs _) trivial trivial

lemma sticky_execLoop : ∀ n sz off, (execLoop sy p ip d sz off n).acts Sticky
  | 0, _, _ => trivial
  | n + 1, _, _ => acts_bind (sticky_onFs _) fun _ => acts_ite trivial <| acts_ite
    (sticky_execLoop n _ _) <| acts_ite trivial <| acts_option sticky_execSegment trivial fun _ =>
      sticky_execLoop n _ _

lemma sticky_execBad {pgdir ip : Option Nat} : (execBad sy pgdir ip).acts Sticky := by
  refine acts_bind ?_ fun _ => acts_bind ?_ fun _ => ?_
  · cases pgdir with
    | none => trivial
    | some d => exact sticky_freevm
  · cases ip with
    | none => trivial
    | some ip => exact sticky_onFs _
  · trivial

lemma sticky_copyoutLoop : ∀ n va (src : List Byte), (copyoutLoop d va src n).acts Sticky
  | 0, _, _ => trivial
  | n + 1, _, _ => acts_ite trivial <| acts_option (acts_option sticky_walkpgdir trivial fun _ =>
    acts_bind sticky_read fun _ => acts_ite trivial <| acts_ite trivial trivial) trivial fun _ =>
      acts_bind (sticky_write fun _ => ⟨id, id⟩) fun _ => sticky_copyoutLoop n _ _

lemma sticky_pushArgs : ∀ argv sp argc us, (pushArgs d sp argc us argv).acts Sticky
  | [], _, _, _ => trivial
  | _ :: argv, _, _, _ => acts_ite trivial <| acts_bool (sticky_copyoutLoop ..) trivial
    (sticky_pushArgs argv _ _ _)

lemma sticky_execStack : (execStack d sz argv).acts Sticky :=
  acts_option (sticky_pushArgs _ _ _ _) trivial fun _ =>
    acts_bool (sticky_copyoutLoop _ _ _) trivial trivial

lemma sticky_clearpteu {va : Nat} : (clearpteu d va).acts Sticky :=
  acts_option sticky_walkpgdir trivial fun _ => sticky_setWord

lemma sticky_execCommit : (execCommit sy p d sz argv).acts Sticky :=
  acts_bind sticky_clearpteu fun _ => acts_option sticky_execStack sticky_execBad fun _ =>
    acts_bind sticky_read fun _ => acts_bind (sticky_write fun _ => ⟨id, id⟩) fun _ =>
      acts_bind sticky_switchuvm fun _ => acts_bind sticky_freevm fun _ => trivial

lemma sticky_execUser : (execUser sy p d sz argv).acts Sticky := by
  unfold execUser
  generalize (PGROUNDUP sz + 2 * PGSIZE) % 2 ^ 32 = newsz
  exact acts_bind sticky_allocuvm fun _ => acts_ite sticky_execBad sticky_execCommit

section Segments

variable {I : Nat → State → Prop} (hI : Loading sy T R p ip d I)

include hI

lemma clean_execSegment {offset vaddr filesz memsz : Nat} (hmem : filesz ≤ memsz) (h : I sz s) :
    (execSegment sy p ip d sz offset vaddr filesz memsz).wp (fun r s' => Clean s' →
      ∃ sz', I sz' s' ∧ ∀ z, r = some z → z = sz') AnyPanic s := by
  rw [execSegment, wp_write]
  by_cases hwrap : 2 ^ 32 ≤ vaddr + memsz
  · refine wp_dirty (sticky_execSegment.2 s) fun hc => ?_
    have hw := hc.wrapped
    rw [decide_eq_true hwrap, Bool.or_true] at hw
    exact absurd hw (by simp)
  rw [decide_eq_false hwrap, Bool.or_false, Nat.mod_eq_of_lt (by omega)]
  have hex := hI.exactly h
  have hlt := hI.sz_lt h
  refine wp_clean (clean_allocuvm (hI.space h) (hex.shape hlt.le)) (fun sz' => ?_)
    fun sz' s1 _ hpost => ?_
  · split_ifs
    · trivial
    · refine acts_bind (grants_sticky.loaduvm fun _ _ => sticky_onFs _) fun r => ?_
      cases r <;> trivial
  obtain ⟨h₁, hg⟩ := hpost
  by_cases h0 : sz' = 0
  · rw [if_pos h0]
    exact fun _ => ⟨sz, hI.frame h hg.frame h₁ (hg.kept hex h0) hlt hg.kernel,
      fun _ he => by cases he⟩
  · rw [if_neg h0]
    obtain ⟨hnew, -, hlt', hex'⟩ := hg.exactly hex hlt h0
    have h₂ := hI.frame h hg.frame h₁ hex' hlt' hg.kernel
    refine wp_call (wp_loaduvm hI h₂ (by omega)) fun r s2 h3 => ?_
    cases r with
    | false => exact fun _ => ⟨sz', h3, fun _ he => by cases he⟩
    | true => exact fun _ => ⟨sz', h3, fun z hz => by cases hz; rfl⟩

/-- The segments are loaded one after the other. -/
lemma clean_execLoop : ∀ n sz off s, I sz s →
    (execLoop sy p ip d sz off n).wp (fun r s' => Clean s' →
      ∃ sz', I sz' s' ∧ ∀ z, r = some z → z = sz') AnyPanic s := by
  intro n
  induction n with
  | zero =>
    intro sz off s h _
    refine ⟨sz, h, fun z hz => ?_⟩
    cases hz
    rfl
  | succ n ih =>
    intro sz off s h
    rw [execLoop]
    refine wp_call (hI.readi _ _ h) fun r s1 h₁ => ?_
    obtain ⟨h₁, -⟩ := h₁
    dsimp only
    split_ifs with hr htype hmem
    · exact fun _ => ⟨sz, h₁, fun _ he => by cases he⟩
    · exact ih _ _ _ h₁
    · exact fun _ => ⟨sz, h₁, fun _ he => by cases he⟩
    · refine wp_clean (clean_execSegment hI (Nat.le_of_not_lt hmem) h₁) (fun r => ?_)
        fun r s2 _ hpost => ?_
      · cases r with
        | none => trivial
        | some sz' => exact sticky_execLoop n _ _
      · obtain ⟨sz', h₂, hres⟩ := hpost
        cases r with
        | none => exact fun _ => ⟨sz', h₂, fun _ he => by cases he⟩
        | some z =>
          obtain rfl := hres z rfl
          exact ih _ _ _ h₂

end Segments

/-- The end of `goto bad`: the inode is unlocked and released, if there is one. -/
lemma wp_execBad_ip {o : Option Nat} (h : Since R o.toList o.toList s0 s) (ho : Own sy T R s) :
    (do
      whenSome o fun ip => onFs (iunlockput ip)
      pure (-1) : V Int).wp (fun _ s' => Since R [] [] s0 s' ∧ Own sy T R s') AnyPanic s := by
  cases o with
  | none => exact ⟨h, ho⟩
  | some ip =>
    refine wp_call (h.onFs (I := fun _ => []) (M := fun _ => []) acc_iunlockput)
      fun _ s1 h₁ => ⟨h₁.1, fun g => ?_, ho.once, ho.valid⟩
    rw [h₁.2.2]
    exact ho.count g

lemma wp_execBad (hpipe : ∀ g, pipePage s0.fs.file g ≤ R g) {o : Option Nat}
    (h : Building sy T R d sz o.toList o.toList s0 s) :
    (execBad sy (some d) o).wp (fun _ s' => Since R [] [] s0 s' ∧ Own sy T R s') AnyPanic s := by
  refine wp_bind.mpr (wp_freevm h.space fun s1 h₁ hf _ => wp_execBad_ip (h.since.frame hf ?_) h₁)
  exact h₁.pipe_le hpipe fun _ => le_rfl

end Exec

/-! ### The two ways `exec` ends -/

section Commit

variable {sy : Symbols} {T R : Nat → Nat} {s0 s : State} {p d sz : Nat} {argv : List (List Byte)}

lemma wp_switchuvm : (switchuvm p).wp (fun _ s' => s' = s) AnyPanic s := by
  rw [switchuvm, wp_read]
  split_ifs <;> trivial

/-- The pages that are not part of the new address space: those of the old one, and the rest. -/
def State.besides (s : State) (p : Nat) (R : Nat → Nat) : Nat → Nat :=
  fun g => s.mass (s.pcb p).pgdir g + R g

/-- The old address space is still there. -/
lemma Since.old (h : Since (s0.besides p R) [] [] s0 s) :
    (∀ i, s.table (s0.pcb p).pgdir i = s0.table (s0.pcb p).pgdir i) ∧
      (∀ v < NPAGES, s.pte (s0.pcb p).pgdir v = s0.pte (s0.pcb p).pgdir v) ∧
      ∀ g, s.mass (s0.pcb p).pgdir g = s0.mass (s0.pcb p).pgdir g :=
  mass_of_pages fun g hg => h.page g (hg.trans_le (Nat.le_add_right ..))

variable {N : Nat → Nat} (hN : Settled N s0.fs) (hsz : (s0.fs.proc p).sz < KERNBASE)
  (hshape : Shape s0 (s0.pcb p).pgdir (s0.fs.proc p).sz)

include hN hsz hshape

/-- `exec` has failed. -/
lemma Since.failed (h : Since (s0.besides p R) [] [] s0 s) (ho : Own sy T (s0.besides p R) s) :
    Remapped sy T R p s0 s := by
  obtain ⟨htable, hpte, hmass⟩ := h.old
  obtain ⟨N', hb⟩ := h.books
  have hproc := hb.proc
  refine ⟨?_, ?_, ?_, ?_, ?_, h.file, ⟨N', Settled.of_books hb hN.dead⟩,
    fun g hg => h.page g (hg.trans_le (Nat.le_add_left ..))⟩
  · rw [h.pcb, upd_eq_self]
  · rw [h.pcb]
    exact Own.congr ho (fun g => by rw [hmass]; rfl) rfl
  · rw [h.pcb, hproc]
    exact hshape.congr htable hpte
  · rw [hproc]
    exact hsz
  · rw [hproc, upd_eq_self]

omit hN hsz hshape in
/-- `exec` installs the new address space `d` and frees the old one, `d'`. -/
lemma wp_commit {d' sp : Nat} {u : State}
    (hu : u = (s.setPcb p fun c => { c with pgdir := d, esp := sp }).setSz p sz)
    (h : Space sy T (fun g => s.mass d' g + R g) d s) :
    (do
      write fun s => (s.setPcb p fun c => { c with pgdir := d, esp := sp }).setSz p sz
      switchuvm p
      freevm sy d'
      pure 0 : V Int).wp
      (fun _ s' => Space sy T R d s' ∧ Frame (fun g => s.mass d g + R g) u s') AnyPanic s := by
  have hpage : u.page = s.page := by rw [hu]; rfl
  have hfree : u.fs.freelist = s.fs.freelist := by rw [hu]; rfl
  rw [wp_write, ← hu]
  refine wp_call wp_switchuvm fun _ _ hs1 => ?_
  rw [hs1]
  -- now the new address space is one of the rest
  have hold : Space sy T (fun g => s.mass d g + R g) d' u := by
    refine Own.congr h (fun g => ?_) hfree
    simp only [mass_of_page hpage]
    omega
  refine wp_bind.mpr (wp_freevm hold fun s2 h₂ hf _ => ?_)
  obtain ⟨-, -, hmass⟩ := mass_of_pages (s := u) (u := s2) (d := d) fun g hg => by
    refine hf.page g (hg.trans_le ?_)
    rw [mass_of_page hpage]
    exact Nat.le_add_right ..
  refine ⟨Own.congr h₂ (fun g => ?_) rfl, hf⟩
  rw [hmass, mass_of_page hpage]

omit hsz hshape in
/-- `exec` has succeeded: the old address space is freed. -/
lemma Building.commit (h : Building sy T (s0.besides p R) d sz [] [] s0 s)
    (hpipe : ∀ g, pipePage s0.fs.file g ≤ R g) {sp : Nat} :
    (do
      write fun s => (s.setPcb p fun c => { c with pgdir := d, esp := sp }).setSz p sz
      switchuvm p
      freevm sy (s0.pcb p).pgdir
      pure 0 : V Int).wp (fun _ s' => Remapped sy T R p s0 s') AnyPanic s := by
  obtain ⟨-, -, hmass⟩ := h.since.old
  obtain ⟨N', hb⟩ := h.since.books
  have hproc := hb.proc
  obtain ⟨s1, hs1⟩ : ∃ s1, s1 = (s.setPcb p fun c => { c with pgdir := d, esp := sp }).setSz p sz :=
    ⟨_, rfl⟩
  have hpage1 : s1.page = s.page := by rw [hs1]; rfl
  have hpcb1 : s1.pcb = upd s0.pcb p { s0.pcb p with pgdir := d, esp := sp } := by
    rw [hs1, ← h.since.pcb]
    rfl
  have hproc1 : s1.fs.proc = upd s0.fs.proc p { s0.fs.proc p with sz := sz } := by
    rw [hs1, ← hproc]
    rfl
  have hfile1 : s1.fs.file = s0.fs.file := by rw [hs1]; exact h.since.file
  have hset1 : Settled N' s1.fs := by
    rw [hs1]
    exact (Settled.of_books hb hN.dead).setProc (u := fun pr => { pr with sz := sz }) (fun _ => rfl)
      fun _ => rfl
  have hspace : Space sy T (fun g => s.mass (s0.pcb p).pgdir g + R g) d s :=
    Own.congr h.space (fun g => by simp only [State.besides, hmass]) rfl
  refine wp_mono (wp_commit hs1 hspace) (fun _ s2 hpost => ?_) fun _ _ _ => trivial
  obtain ⟨h₂, hf⟩ := hpost
  obtain ⟨htable2, hpte2, -⟩ := mass_of_pages (s := s) (u := s2) (d := d) fun g hg => by
    rw [hf.page g (hg.trans_le (Nat.le_add_right ..)), hpage1]
  have hd : (s2.pcb p).pgdir = d ∧ (s2.pcb p).esp = sp := by
    rw [hf.pcb, hpcb1, upd_same]
    exact ⟨rfl, rfl⟩
  have hsz2 : (s2.fs.proc p).sz = sz := by
    rw [hf.fs]
    change (s1.fs.proc p).sz = sz
    rw [hproc1, upd_same]
  refine ⟨?_, ?_, ?_, ?_, ?_, ?_, ?_, fun g hg => ?_⟩
  · rw [hd.1, hd.2, hf.pcb, hpcb1]
  · rw [hd.1]
    exact h₂
  · rw [hd.1, hsz2]
    exact (h.exactly.shape h.sz_lt.le).congr htable2 hpte2
  · rw [hsz2]
    exact h.sz_lt
  · rw [hsz2, hf.fs]
    exact hproc1
  · rw [hf.fs]
    exact hfile1
  · refine hset1.refree hf.fs fun g => ?_
    rw [hfile1]
    exact Own.pipe_le h₂ hpipe (fun _ => Nat.le_add_left ..) g
  · rw [hf.page g (hg.trans_le (Nat.le_add_left ..)), hpage1]
    exact h.since.page g (hg.trans_le (Nat.le_add_left ..))

section Calls

variable (hpipe : ∀ g, pipePage s0.fs.file g ≤ R g)

include hpipe

lemma clean_execBad {o : Option Nat} {u : State}
    (h : Building sy T (s0.besides p R) d sz o.toList o.toList s0 u) :
    (execBad sy (some d) o).wp (fun _ s' => Clean s' → Remapped sy T R p s0 s') AnyPanic u :=
  wp_mono (wp_execBad (fun g => (hpipe g).trans (Nat.le_add_left ..)) h)
    (fun _ _ hpost _ => hpost.1.failed hN hsz hshape hpost.2) fun _ _ _ => trivial

lemma clean_execCommit (h : Building sy T (s0.besides p R) d sz [] [] s0 s)
    {v : Nat} (hv : v + 2 ≤ NUSER) (htop : sz = PGSIZE * v + 2 * PGSIZE)
    (hfits : argBytes argv ≤ PGSIZE) :
    (execCommit sy p d sz argv).wp (fun _ s' => Clean s' → Remapped sy T R p s0 s') AnyPanic s := by
  have hpipe' : ∀ g, pipePage s0.fs.file g ≤ s0.besides p R g := fun g =>
    (hpipe g).trans (Nat.le_add_left ..)
  rw [execCommit, show sz - 2 * PGSIZE = PGSIZE * v by omega]
  have hI : Loading sy T (s0.besides p R) p 0 d fun sz s =>
      Building sy T (s0.besides p R) d sz [] [] s0 s := Building.loading hpipe' (by decide)
  refine wp_call (wp_clearpteu hI h (by omega)) fun _ s1 h₁ => ?_
  refine wp_call (wp_execStack hpipe' h₁.1 h.sz_lt.le (by omega) hfits) fun r s2 h₂ => ?_
  cases r with
  | none => exact clean_execBad (o := none) hN hsz hshape hpipe h₂
  | some sp =>
    rw [wp_read, h₂.since.pcb]
    exact wp_mono (h₂.commit hN hpipe) (fun _ _ hr _ => hr) fun _ _ _ => trivial

lemma clean_execUser (h : Building sy T (s0.besides p R) d sz [] [] s0 s)
    (hfits : argBytes argv ≤ PGSIZE) :
    (execUser sy p d sz argv).wp (fun _ s' => Clean s' → Remapped sy T R p s0 s') AnyPanic s := by
  have hpipe' : ∀ g, pipePage s0.fs.file g ≤ s0.besides p R g := fun g =>
    (hpipe g).trans (Nat.le_add_left ..)
  have hup : PGROUNDUP sz = PGSIZE * pages sz := PGROUNDUP_eq h.sz_lt.le
  have hpages : pages (PGSIZE * pages sz) = pages sz := by
    simp only [pages, PGSIZE]
    omega
  have hbound := pages_le h.sz_lt.le
  have hround : ∀ {u}, Exactly u d (PGSIZE * pages sz) ↔ Exactly u d sz := by
    intro u
    unfold Exactly
    simp only [← lt_pages, hpages]
  have hmax : PGSIZE * pages sz ≤ KERNBASE := by
    simp only [PGSIZE, KERNBASE, NUSER] at *
    omega
  have hnew : (PGSIZE * pages sz + 2 * PGSIZE) % 2 ^ 32 = PGSIZE * pages sz + 2 * PGSIZE := by
    refine Nat.mod_eq_of_lt ?_
    simp only [PGSIZE, KERNBASE] at *
    omega
  unfold execUser
  rw [hup, hnew]
  have hex := hround.mpr h.exactly
  generalize hnewsz : PGSIZE * pages sz + 2 * PGSIZE = newsz
  refine wp_clean (clean_allocuvm h.space (hex.shape hmax)) (fun sz' => ?_) fun sz' s1 _ hpost => ?_
  · split_ifs
    · exact sticky_execBad
    · exact sticky_execCommit
  obtain ⟨h₁, hg⟩ := hpost
  by_cases h0 : sz' = 0
  · rw [if_pos h0]
    exact clean_execBad (o := none) hN hsz hshape hpipe
      (h.frame hg.frame h₁ (hround.mp (hg.kept hex h0)) h.sz_lt hpipe')
  · rw [if_neg h0]
    have hfr := hg.frame
    cases hg with
    | refused => exact absurd rfl h0
    | already hlt => omega
    | grown hle hlt hf =>
      refine clean_execCommit hN hsz hshape hpipe (h.frame hfr h₁ (hex.paged hle hf) hlt hpipe')
        (v := pages sz) ?_ hnewsz.symm hfits
      simp only [PGSIZE, KERNBASE, NUSER] at *
      omega

lemma clean_execImage {ip : Nat} (hip : ip < NINODE) {elf : Bytes}
    (h : Since (s0.besides p R) [ip] [ip] s0 s) (ho : Own sy T (s0.besides p R) s)
    (hfits : argBytes argv ≤ PGSIZE) :
    (execImage sy p ip elf argv).wp (fun _ s' => Clean s' → Remapped sy T R p s0 s')
      AnyPanic s := by
  have hpipe' : ∀ g, pipePage s0.fs.file g ≤ s0.besides p R g := fun g =>
    (hpipe g).trans (Nat.le_add_left ..)
  rw [execImage]
  refine wp_bind.mpr (wp_setupkvm ho (fun d s1 h₁ hf hnone _ _ _ => ?_) fun s1 hs _ => ?_)
  swap
  · exact wp_dirty sticky_execBad (not_clean hs)
  have hex : Exactly s1 d 0 := fun v hv => by
    rw [hnone v hv]
    exact iff_of_false (by simp) (by omega)
  have hb : Building sy T (s0.besides p R) d 0 [ip] [ip] s0 s1 :=
    ⟨h.frame hf (Own.pipe_le h₁ hpipe' fun _ => Nat.le_add_left ..), h₁, hex, by decide⟩
  refine wp_clean (clean_execLoop (Building.loading hpipe' hip) _ _ _ _ hb) (fun r => ?_)
    fun r s2 _ hpost => ?_
  · cases r with
    | none => exact sticky_execBad
    | some sz => exact acts_bind (sticky_onFs _) fun _ => sticky_execUser
  obtain ⟨sz, h₂, hres⟩ := hpost
  cases r with
  | none => exact clean_execBad (o := some ip) hN hsz hshape hpipe h₂
  | some z =>
    obtain rfl := hres z rfl
    refine wp_call (h₂.onFs (I := fun _ => []) (M := fun _ => []) acc_iunlockput)
      fun _ s3 h3 => ?_
    exact clean_execUser hN hsz hshape hpipe h3.1 hfits

/-- `exec` leaves an address space to the process, the old one or the new one. -/
lemma clean_exec (hp : p < NPROC) (h : Space sy T R (s0.pcb p).pgdir s0) {path junk : List Byte}
    (hfits : argBytes argv ≤ PGSIZE) :
    (exec sy p path argv junk).wp (fun _ s' => Clean s' → Remapped sy T R p s0 s') AnyPanic s0 := by
  have hstart : Since (s0.besides p R) [] [] s0 s0 := ⟨⟨N, hN.books⟩, rfl, rfl, fun _ _ => rfl⟩
  rw [exec]
  refine wp_call (hstart.onFs (acc_namei (hN.books.cwd_lt hp))) fun r s1 h₁ => ?_
  obtain ⟨h₁, hpage1, hcount1⟩ := h₁
  have ho : ∀ {u : State}, (∀ g, u.fs.freelist.count g = s0.fs.freelist.count g) →
      Own sy T (s0.besides p R) u := fun hcount =>
    ⟨fun g => by rw [hcount]; exact h.count g, h.once, h.valid⟩
  cases r with
  | none => exact fun _ => h₁.failed hN hsz hshape (ho hcount1)
  | some ip =>
    obtain ⟨_, hb⟩ := h₁.books
    have hip : ip < NINODE := hb.inodes.mem_lt List.mem_cons_self
    refine wp_call (h₁.onFs (I := fun _ => [ip]) (M := fun _ => [ip]) (acc_ilock hip))
      fun _ s2 h₂ => ?_
    refine wp_call (h₂.1.onFs (acc_readi hip)) fun r s3 h3 => ?_
    have ho3 := ho fun g => ((h3.2.2 g).trans (h₂.2.2 g)).trans (hcount1 g)
    have hbad : (execBad sy none (some ip)).wp (fun _ s' => Clean s' → Remapped sy T R p s0 s')
        AnyPanic s3 :=
      wp_mono (wp_execBad_ip (o := some ip) h3.1 ho3)
        (fun _ _ hpost _ => hpost.1.failed hN hsz hshape hpost.2) fun _ _ _ => trivial
    dsimp only
    generalize cstr (if r.1 = -1 then junk else r.2) = elf
    split_ifs
    · exact hbad
    · exact hbad
    · exact clean_execImage hN hsz hshape hpipe hip h3.1 ho3 hfits

end Calls

end Commit

end Xv6.Vm
