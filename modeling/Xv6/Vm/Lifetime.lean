import Xv6.Vm.Copyuvm

/-!
# Pages over the lives of processes

Between system calls every page of the free list at boot is on the free list, in the memory of one
live or zombie process, or in one open pipe. Each call keeps it so, as long as no `kalloc` fails.
-/

namespace Xv6

open Lib Prog

/-! ### Sizes and current directories -/

/-- The sizes and the current directories of the processes are the same. -/
def SameSizes (s s' : State) : Prop :=
  ∀ q, (s'.proc q).sz = (s.proc q).sz ∧ (s'.proc q).cwd = (s.proc q).cwd

section Sizes

variable {α : Type} {s s' s'' : State} {p np f k g fd : Nat}

lemma SameSizes.refl (s : State) : SameSizes s s := fun _ => ⟨rfl, rfl⟩

lemma SameSizes.trans (h : SameSizes s s') (h' : SameSizes s' s'') : SameSizes s s'' := fun q =>
  ⟨(h' q).1.trans (h q).1, (h' q).2.trans (h q).2⟩

lemma SameSizes.of_proc (h : s'.proc = s.proc) : SameSizes s s' := fun _ => by
  rw [h]
  exact ⟨rfl, rfl⟩

lemma SameSizes.setOfile {o : Proc → Nat → Option Nat} :
    SameSizes s (s.setProc p fun pr => { pr with ofile := o pr }) := by
  intro q
  unfold State.setProc
  by_cases hq : q = p
  · rw [hq]
    simp
  · simp [upd_ne hq]

lemma wp_sizes {q : K α} (hq : q.acts SameSizes) : q.wp (fun _ s' => SameSizes s s') AnyStop s :=
  wp_mono (wp_of_acts SameSizes.refl (fun _ _ _ h h' => h.trans h') hq s) (fun _ _ h => h)
    fun _ _ _ => trivial

lemma sizes_quiet {q : K α} (hq : q.acts Quiet) : q.acts SameSizes :=
  acts_mono hq fun _ _ h => SameSizes.of_proc h.proc

lemma sizes_write {u : State → State} (h : ∀ s, SameSizes s (u s)) : (write u).acts SameSizes :=
  ⟨fun s _ => h s, fun _ => trivial⟩

lemma sizes_iput : (iput k).acts SameSizes :=
  acts_mono tables_iput fun _ _ h => SameSizes.of_proc h.proc

lemma sizes_fileclose : (fileclose f).acts SameSizes := by
  refine acts_option ⟨fun s _ => SameSizes.of_proc ?_, fun s => acts_ite trivial (acts_ite trivial
    trivial)⟩ trivial fun ff => acts_ite ?_ (acts_when ?_)
  · dsimp only
    split_ifs <;> rfl
  · exact acts_bind ⟨fun s _ => SameSizes.of_proc rfl, fun _ => trivial⟩ fun _ =>
      acts_when (sizes_write fun _ => SameSizes.of_proc rfl)
  · exact acts_bind (sizes_quiet quiet_beginTrans) fun _ => acts_bind sizes_iput fun _ =>
      sizes_quiet quiet_commitTrans

lemma sizes_clearFd : (clearFd p fd).acts SameSizes := sizes_write fun _ => SameSizes.setOfile

lemma sizes_fdalloc : (fdalloc p f).acts SameSizes := by
  refine ⟨fun s _ => ?_, fun _ => trivial⟩
  dsimp only
  split
  · exact SameSizes.setOfile
  · exact SameSizes.refl s

lemma sizes_filealloc : filealloc.acts SameSizes := by
  refine ⟨fun s _ => ?_, fun _ => trivial⟩
  dsimp only
  split
  · exact SameSizes.of_proc rfl
  · exact SameSizes.refl s

lemma sizes_filedup : (filedup f).acts SameSizes := by
  refine ⟨fun s _ => SameSizes.of_proc ?_, fun _ => acts_ite trivial trivial⟩
  dsimp only
  split_ifs <;> rfl

lemma sizes_argfd {d : Int} : (argfd p d).acts SameSizes :=
  acts_ite trivial (sizes_quiet quiet_read)

lemma sizes_sysClose {d : Int} : (sysClose p d).acts SameSizes :=
  acts_option sizes_argfd trivial fun _ => acts_bind sizes_clearFd fun _ =>
    acts_bind sizes_fileclose fun _ => trivial

/-- The files that a call opened are closed when it fails. -/
lemma sizes_fileclose_twice {f0 f1 : Nat} {a : α} :
    (do fileclose f0; fileclose f1; pure a : K α).acts SameSizes :=
  acts_bind sizes_fileclose fun _ => acts_bind sizes_fileclose fun _ => trivial

lemma sizes_pipealloc : pipealloc.acts SameSizes :=
  acts_option sizes_filealloc trivial fun _ => acts_option sizes_filealloc
    (acts_bind sizes_fileclose fun _ => trivial) fun _ =>
    acts_option ⟨fun _ _ => SameSizes.of_proc rfl, fun _ => trivial⟩ sizes_fileclose_twice fun _ =>
    acts_bind (sizes_write fun _ => SameSizes.of_proc rfl) fun _ =>
    acts_bind (sizes_write fun _ => SameSizes.of_proc rfl) fun _ =>
    acts_bind (sizes_write fun _ => SameSizes.of_proc rfl) fun _ => trivial

lemma sizes_sysPipe {ptr : Nat} : (sysPipe p ptr).acts SameSizes := by
  refine acts_bind (sizes_quiet quiet_read) fun sz => ?_
  cases argptr sz ptr 8 with
  | none => trivial
  | some _ =>
    exact acts_option sizes_pipealloc trivial fun _ => acts_option sizes_fdalloc
      sizes_fileclose_twice fun _ => acts_option sizes_fdalloc
        (acts_bind sizes_clearFd fun _ => sizes_fileclose_twice) fun _ => trivial

lemma sizes_exitLoop : ∀ n fd, (exitLoop p fd n).acts SameSizes
  | 0, _ => trivial
  | n + 1, _ => acts_option (sizes_quiet quiet_read) (sizes_exitLoop n _) fun _ =>
    acts_bind sizes_fileclose fun _ => acts_bind sizes_clearFd fun _ => sizes_exitLoop n _

lemma sizes_forkLoop : ∀ n fd, (forkLoop p np fd n).acts SameSizes
  | 0, _ => trivial
  | n + 1, _ => acts_option (sizes_quiet quiet_read) (sizes_forkLoop n _) fun _ => acts_bind
    sizes_filedup fun _ => acts_bind (sizes_write fun _ => SameSizes.setOfile) fun _ =>
      sizes_forkLoop n _

/-- `exit` gives up the current directory. -/
lemma wp_exit_procs : (exit p).wp (fun _ s' => (s'.proc p).cwd = none ∧
    ∀ q, q ≠ p → (s'.proc q).sz = (s.proc q).sz ∧ (s'.proc q).cwd = (s.proc q).cwd) AnyStop s := by
  unfold exit
  split_ifs
  · trivial
  refine wp_call (wp_sizes (sizes_exitLoop NOFILE 0)) fun _ s1 h₁ => ?_
  refine wp_read.mpr ?_
  cases (s1.proc p).cwd with
  | none => trivial
  | some k =>
    refine wp_call (wp_sizes sizes_iput) fun _ s2 h₂ => ?_
    refine ⟨by simp [State.setProc], fun q hq => ?_⟩
    have hsame : ((s2.setProc p fun pr => { pr with cwd := none }).proc q) =
      s2.proc q := upd_ne hq
    rw [hsame]
    exact h₁.trans h₂ q

/-- The child of `fork` has the size and the current directory of the parent. -/
lemma wp_fork_procs : (fork p (some np)).wp (fun _ s' =>
    ((s'.proc np).sz = (s.proc p).sz ∧ (s'.proc np).cwd ≠ none) ∧
    ∀ q, q ≠ np → (s'.proc q).sz = (s.proc q).sz ∧ (s'.proc q).cwd = (s.proc q).cwd) AnyStop s := by
  refine wp_read.mpr (wp_write.mpr ?_)
  obtain ⟨s1, hs1⟩ : ∃ s1, s1 = s.setProc np fun pr => { pr with sz := (s.proc p).sz } := ⟨_, rfl⟩
  have hnp : (s1.proc np).sz = (s.proc p).sz := by
    rw [hs1]
    simp [State.setProc]
  have hq1 : ∀ q, q ≠ np → s1.proc q = s.proc q := fun q hq => by
    rw [hs1]
    exact upd_ne hq
  rw [← hs1]
  refine wp_call (wp_sizes (sizes_forkLoop NOFILE 0)) fun _ s2 h₂ => ?_
  refine wp_read.mpr ?_
  cases (s2.proc p).cwd with
  | none => trivial
  | some k =>
    refine wp_call (wp_sizes (acts_bind (sizes_write fun _ => SameSizes.of_proc rfl)
      fun _ => trivial))
      fun r s3 h3 => ?_
    have hall := h₂.trans h3
    refine ⟨⟨?_, by simp [State.setProc]⟩, fun q hq => ?_⟩
    · have hsz : ((s3.setProc np fun pr => { pr with cwd := some r }).proc np).sz =
        (s3.proc np).sz := by
        simp [State.setProc]
      exact hsz.trans ((hall np).1.trans hnp)
    · have hsame : ((s3.setProc np fun pr => { pr with cwd := some r }).proc q) = s3.proc q :=
        upd_ne hq
      rw [hsame, (hall q).1, (hall q).2, hq1 q hq]
      exact ⟨rfl, rfl⟩

end Sizes

end Xv6

namespace Xv6.Vm

open Lib Prog

/-! ### The pages of processes -/

/-- The process has memory. -/
def Pcb.Has (c : Pcb) : Prop := c.state = .live ∨ c.state = .zombie

instance (c : Pcb) : Decidable c.Has := inferInstanceAs (Decidable (_ ∨ _))

/-- How often page `g` belongs to process `q`, in its address space or as its kernel stack. -/
def State.owned (s : State) (q g : Nat) : Nat :=
  if (s.pcb q).Has then s.mass (s.pcb q).pgdir g + [(s.pcb q).kstack].count g else 0

/-- How often page `g` belongs to a process or a pipe. -/
def State.others (s : State) (g : Nat) : Nat :=
  ∑ q ∈ Finset.range NPROC, s.owned q g + pipePage s.fs.file g

/-- How often page `g` belongs to a process other than `p`. -/
def State.procs (s : State) (p g : Nat) : Nat := ∑ q ∈ (Finset.range NPROC).erase p, s.owned q g

/-- Between system calls each page is in one place, the living processes have an address space and a
current directory, and the others have no current directory. -/
structure Inv (sy : Symbols) (T : Nat → Nat) (s : State) : Prop where
  own : Own sy T s.others s
  settled : ∃ N, Settled N s.fs
  cwd : ∀ p < NPROC, (s.pcb p).state = .live ↔ (s.fs.proc p).cwd ≠ none
  sz_lt : ∀ p < NPROC, (s.pcb p).state = .live → (s.fs.proc p).sz < KERNBASE
  shape : ∀ p < NPROC, (s.pcb p).state = .live → Shape s (s.pcb p).pgdir (s.fs.proc p).sz

section Inv

variable {sy : Symbols} {T : Nat → Nat} {s s' : State} {p q g : Nat}

lemma others_eq (hp : p < NPROC) (s : State) (g : Nat) :
    s.others g = s.owned p g + s.procs p g + pipePage s.fs.file g := by
  have hsum := Finset.add_sum_erase (Finset.range NPROC) (fun q => s.owned q g)
    (Finset.mem_range.mpr hp)
  unfold State.others State.procs
  rw [← hsum]

lemma owned_le_procs (hq : q < NPROC) (hne : q ≠ p) (s : State) (g : Nat) :
    s.owned q g ≤ s.procs p g := by
  have hmem : q ∈ (Finset.range NPROC).erase p :=
    Finset.mem_erase.mpr ⟨hne, Finset.mem_range.mpr hq⟩
  rw [State.procs, ← Finset.add_sum_erase _ _ hmem]
  exact Nat.le_add_right ..

lemma owned_of_has (h : (s.pcb q).Has) (g : Nat) :
    s.owned q g = s.mass (s.pcb q).pgdir g + [(s.pcb q).kstack].count g := if_pos h

lemma owned_of_not (h : ¬ (s.pcb q).Has) (g : Nat) : s.owned q g = 0 := if_neg h

/-- A process whose pages are as before. -/
lemma Shape.of_pages {sz : Nat} (h : Shape s (s.pcb q).pgdir sz)
    (hpcb : (s'.pcb q).pgdir = (s.pcb q).pgdir)
    (hpage : ∀ g, 0 < s.mass (s.pcb q).pgdir g → s'.page g = s.page g) :
    Shape s' (s'.pcb q).pgdir sz := by
  obtain ⟨htable, hpte, -⟩ := mass_of_pages hpage
  rw [hpcb]
  exact h.congr htable hpte

lemma owned_congr (hpcb : s'.pcb q = s.pcb q) (hpage : ∀ g, 0 < s.owned q g → s'.page g = s.page g)
    (g : Nat) : s'.owned q g = s.owned q g := by
  unfold State.owned
  rw [hpcb]
  split_ifs with hhas
  · obtain ⟨-, -, hmass⟩ := mass_of_pages (s := s) (u := s') (d := (s.pcb q).pgdir) fun g hg =>
      hpage g (by rw [owned_of_has hhas]; omega)
    rw [hmass]
  · rfl

lemma procs_congr (hpcb : ∀ q < NPROC, q ≠ p → s'.pcb q = s.pcb q)
    (hpage : ∀ g, 0 < s.procs p g → s'.page g = s.page g) (g : Nat) :
    s'.procs p g = s.procs p g := by
  refine Finset.sum_congr rfl fun q hq => ?_
  obtain ⟨hne, hq⟩ := Finset.mem_erase.mp hq
  have hq := Finset.mem_range.mp hq
  exact owned_congr (hpcb q hq hne)
    (fun g hg => hpage g (hg.trans_le (owned_le_procs hq hne s g))) g

/-- A change of process `p` alone: the other processes and their pages are as before. -/
lemma Inv.change (h : Inv sy T s) (hp : p < NPROC) (hpcb : ∀ q < NPROC, q ≠ p → s'.pcb q = s.pcb q)
    (hproc : ∀ q, q ≠ p → (s'.fs.proc q).sz = (s.fs.proc q).sz ∧
    (s'.fs.proc q).cwd = (s.fs.proc q).cwd)
    (hpage : ∀ g, 0 < s.procs p g → s'.page g = s.page g)
    (hown : Own sy T (fun g => s'.owned p g + s.procs p g + pipePage s'.fs.file g) s')
    (hsettled : ∃ N, Settled N s'.fs) (hcwd : (s'.pcb p).state = .live ↔ (s'.fs.proc p).cwd ≠ none)
    (hlive : (s'.pcb p).state = .live → (s'.fs.proc p).sz < KERNBASE ∧
      Shape s' (s'.pcb p).pgdir (s'.fs.proc p).sz) : Inv sy T s' := by
  refine ⟨Own.congr hown (fun g => ?_) rfl, hsettled, fun q hq => ?_, fun q hq hl => ?_,
    fun q hq hl => ?_⟩
  · rw [others_eq hp, procs_congr hpcb hpage]
  · by_cases hqp : q = p
    · rw [hqp]
      exact hcwd
    · rw [hpcb q hq hqp, (hproc q hqp).2]
      exact h.cwd q hq
  · by_cases hqp : q = p
    · rw [hqp] at hl ⊢
      exact (hlive hl).1
    · rw [hpcb q hq hqp] at hl
      rw [(hproc q hqp).1]
      exact h.sz_lt q hq hl
  · by_cases hqp : q = p
    · rw [hqp] at hl ⊢
      exact (hlive hl).2
    · have hl' : (s.pcb q).state = .live := by
        rw [← hpcb q hq hqp]
        exact hl
      rw [(hproc q hqp).1]
      refine (h.shape q hq hl').of_pages (by rw [hpcb q hq hqp]) fun g hg => hpage g ?_
      have := owned_le_procs hq hqp s g
      rw [owned_of_has (.inl hl')] at this
      omega

/-- The pages of the others, and the kernel stack of `p`. -/
def State.beside (s : State) (p g : Nat) : Nat :=
  [(s.pcb p).kstack].count g + (s.procs p g + pipePage s.fs.file g)

lemma Inv.space (h : Inv sy T s) (hp : p < NPROC) (hhas : (s.pcb p).Has) :
    Space sy T (s.beside p) (s.pcb p).pgdir s := by
  refine Own.congr h.own (fun g => ?_) rfl
  rw [others_eq hp, owned_of_has hhas, State.beside]
  omega

/-- `sbrk` and `exec`. -/
lemma Inv.remapped (h : Inv sy T s) (hp : p < NPROC) (hl : (s.pcb p).state = .live)
    (hr : Remapped sy T (s.beside p) p s s') : Inv sy T s' := by
  have hstate : (s'.pcb p).state = .live := by
    rw [hr.pcb, upd_same]
    exact hl
  have hkstack : (s'.pcb p).kstack = (s.pcb p).kstack := by rw [hr.pcb, upd_same]
  refine h.change hp (fun q _ hqp => ?_) (fun q hqp => ?_) (fun g hg => hr.page g ?_) ?_
    hr.settled ?_ fun _ => ⟨hr.sz_lt, hr.shape⟩
  · rw [hr.pcb, upd_ne hqp]
  · rw [hr.proc, upd_ne hqp]
    exact ⟨rfl, rfl⟩
  · unfold State.beside
    omega
  · refine Own.congr hr.space (fun g => ?_) rfl
    rw [owned_of_has (.inl hstate), hkstack, hr.file, State.beside]
    omega
  · rw [hr.proc, upd_same]
    exact iff_of_true hstate ((h.cwd p hp).mp hl)

/-- A call into the file system that keeps sizes and directories. -/
lemma Inv.fs {N : Nat → Nat} {fs : Xv6.State} (h : Inv sy T s) (hN : Settled N s.fs)
    (hN' : Settled N fs) (hk : SameSizes s.fs fs) : Inv sy T { s with fs := fs } := by
  have hmass : ∀ d g, ({ s with fs := fs } : State).mass d g = s.mass d g := fun d g =>
    mass_of_page (u := { s with fs := fs }) (s := s) rfl d g
  have howned : ∀ q g, ({ s with fs := fs } : State).owned q g = s.owned q g := fun q g => by
    unfold State.owned
    rw [hmass]
  refine ⟨⟨fun g => ?_, h.own.once, h.own.valid⟩, ⟨N, hN'⟩, fun q hq => ?_, fun q hq hl => ?_,
    fun q hq hl => ?_⟩
  · have h1 := hN.books.table.pages g
    have h2 := hN'.books.table.pages g
    have h3 := h.own.count g
    unfold State.others at h3 ⊢
    simp only [howned]
    change fs.freelist.count g + _ = _
    omega
  · change _ ↔ (fs.proc q).cwd ≠ none
    rw [(hk q).2]
    exact h.cwd q hq
  · change (fs.proc q).sz < _
    rw [(hk q).1]
    exact h.sz_lt q hq hl
  · change Shape _ _ (fs.proc q).sz
    rw [(hk q).1]
    exact (h.shape q hq hl).congr (fun _ => rfl) fun _ _ => rfl

/-! ### The calls -/

/-- `pipe` and `close`. -/
lemma Inv.onFs {α : Type} {q : K α} (h : Inv sy T s)
    (hq : ∀ N, Settled N s.fs → q.wp (fun _ fs => Settled N fs) AnyStop s.fs)
    (hk : q.acts SameSizes) :
    (onFs q).wp (fun _ s' => Clean s' → Inv sy T s') AnyPanic s := by
  obtain ⟨N, hN⟩ := h.settled
  refine wp_mono (wp_onFs (wp_and (hq N hN) (wp_sizes hk))) ?_ fun _ _ he => he
  rintro a s' ⟨fs, rfl, hN', hsizes⟩ _
  exact h.fs hN hN' hsizes

lemma Inv.isLive (h : Inv sy T s) (hp : p < NPROC) (hl : (s.pcb p).state = .live) : Live s.fs p :=
  ⟨hp, (h.cwd p hp).mp hl⟩

/-- `exit` closes the files, and the pages stay with the zombie. -/
lemma Inv.exit (h : Inv sy T s) (hp : p < NPROC) (hl : (s.pcb p).state = .live) :
    (exit p).wp (fun _ s' => Clean s' → Inv sy T s') AnyPanic s := by
  obtain ⟨N, hN⟩ := h.settled
  refine wp_call (wp_onFs (wp_and (settled_exit hN (h.isLive hp hl)) wp_exit_procs)) ?_
  rintro _ s1 ⟨fs, rfl, hN', hcwd, hproc⟩
  rw [wp_write]
  intro _
  obtain ⟨s2, hs2⟩ : ∃ s2, s2 = ({ s with fs := fs } : State).abandon p := ⟨_, rfl⟩
  have hfs : s2.fs = fs := by rw [hs2]; rfl
  have hpage : s2.page = s.page := by rw [hs2]; rfl
  have hstate : ∀ q, (s2.pcb q).state = if q = p then .zombie else (s.pcb q).state := by
    rw [hs2]
    exact fun _ => rfl
  have hpgdir : ∀ q, (s2.pcb q).pgdir = (s.pcb q).pgdir := by rw [hs2]; exact fun _ => rfl
  have hkstack : ∀ q, (s2.pcb q).kstack = (s.pcb q).kstack := by rw [hs2]; exact fun _ => rfl
  have hhas : ∀ q, (s2.pcb q).Has ↔ (s.pcb q).Has := by
    intro q
    unfold Pcb.Has
    rw [hstate]
    split_ifs with hq
    · simp [hq, hl]
    · exact Iff.rfl
  have howned : ∀ q g, s2.owned q g = s.owned q g := by
    intro q g
    unfold State.owned
    rw [if_congr (hhas q) rfl rfl, hpgdir, hkstack, mass_of_page hpage]
  have hlive : ∀ q, (s2.pcb q).state = .live → q ≠ p ∧ (s.pcb q).state = .live := by
    intro q hq
    rw [hstate] at hq
    split_ifs at hq with hqp
    exact ⟨hqp, hq⟩
  change Inv sy T (({ s with fs := fs } : State).abandon p)
  rw [← hs2]
  refine ⟨⟨fun g => ?_, h.own.once, h.own.valid⟩, ⟨N, by rw [hfs]; exact hN'⟩, fun q hq => ?_,
    fun q hq hql => ?_, fun q hq hql => ?_⟩
  · have h1 := hN.books.table.pages g
    have h2 := hN'.books.table.pages g
    have h3 := h.own.count g
    unfold State.others at h3 ⊢
    simp only [howned, hfs]
    omega
  · rw [hstate, hfs]
    by_cases hqp : q = p
    · rw [if_pos hqp, hqp, hcwd]
      simp
    · rw [if_neg hqp, (hproc q hqp).2]
      exact h.cwd q hq
  · obtain ⟨hqp, hql⟩ := hlive q hql
    rw [hfs, (hproc q hqp).1]
    exact h.sz_lt q hq hql
  · obtain ⟨hqp, hql⟩ := hlive q hql
    rw [hfs, (hproc q hqp).1]
    exact (h.shape q hq hql).of_pages (hpgdir q) fun g _ => by rw [hpage]

/-- A zombie gives back its kernel stack and its address space. -/
lemma Inv.reap (h : Inv sy T s) (hq : q < NPROC) (hz : (s.pcb q).state = .zombie) {r : Int} :
    (do
      kfree sy (s.pcb q).kstack
      write fun s => s.setPcb q fun c => { c with kstack := 0 }
      let pgdir ← read fun s => (s.pcb q).pgdir
      freevm sy pgdir
      write fun s => s.setPcb q fun c => { c with state := .unused, parent := none }
      pure r : V Int).wp (fun _ s' => Clean s' → Inv sy T s') AnyPanic s := by
  obtain ⟨N, hN⟩ := h.settled
  have hhas : (s.pcb q).Has := .inr hz
  have hplus : Own sy T (plus
      (fun g => s.mass (s.pcb q).pgdir g + (s.procs q g + pipePage s.fs.file g))
      (s.pcb q).kstack) s := by
    refine Own.congr h.own (fun g => ?_) rfl
    rw [others_eq hq, owned_of_has hhas]
    simp only [plus]
    omega
  -- the kernel stack is no page of anything else
  have hstack := hplus.le_one (s.pcb q).kstack
  rw [plus_same] at hstack
  have hne : ∀ g, 0 < s.mass (s.pcb q).pgdir g + s.procs q g →
      (s.freed (s.pcb q).kstack).page g = s.page g := by
    intro g hg
    refine State.setPage_ne ?_
    rintro rfl
    omega
  obtain ⟨htable, hpte, hmass⟩ := mass_of_pages (u := s.freed (s.pcb q).kstack) fun g hg =>
    hne g (Nat.add_pos_left hg _)
  refine wp_bind.mpr (wp_kfree hplus fun h₁ => ?_)
  rw [wp_write, wp_read]
  obtain ⟨s1, hs1⟩ : ∃ s1, s1 = (s.freed (s.pcb q).kstack).setPcb q fun c =>
      { c with kstack := 0 } :=
    ⟨_, rfl⟩
  have hpgdir : (s1.pcb q).pgdir = (s.pcb q).pgdir := by
    rw [hs1]
    simp [State.setPcb, State.freed]
  have hpage1 : s1.page = (s.freed (s.pcb q).kstack).page := by rw [hs1]; rfl
  have hfs1 : s1.fs = { s.fs with freelist := s1.fs.freelist } := by rw [hs1]; rfl
  have hpcb1 : ∀ q', q' ≠ q → s1.pcb q' = s.pcb q' := fun q' hq' => by
    rw [hs1]
    exact upd_ne hq'
  have hspace : Space sy T (fun g => s.procs q g + pipePage s.fs.file g) (s.pcb q).pgdir s1 := by
    refine Own.congr h₁ (fun g => ?_) (by rw [hs1]; rfl)
    rw [mass_of_page hpage1, hmass]
  rw [← hs1, hpgdir]
  refine wp_bind.mpr (wp_freevm hspace fun s2 h₂ hf _ => ?_)
  rw [wp_write]
  intro _
  have hfs2 : s2.fs = { s.fs with freelist := s2.fs.freelist } := by rw [hf.fs, hfs1]
  obtain ⟨s3, hs3⟩ : ∃ s3, s3 = s2.setPcb q fun c => { c with state := .unused, parent := none } :=
    ⟨_, rfl⟩
  have hfs3 : s3.fs = s2.fs := by rw [hs3]; rfl
  have hstate : (s3.pcb q).state = .unused := by
    rw [hs3]
    simp [State.setPcb]
  have hnot : ¬ (s3.pcb q).Has := by
    unfold Pcb.Has
    rw [hstate]
    simp
  change Inv sy T (s2.setPcb q fun c => { c with state := .unused, parent := none })
  rw [← hs3]
  refine h.change hq (fun q' _ hq' => ?_) (fun q' _ => ?_) (fun g hg => ?_) ?_ ?_ ?_ fun hl => ?_
  · rw [hs3]
    exact (upd_ne hq').trans ((by rw [hf.pcb] : s2.pcb q' = s1.pcb q').trans (hpcb1 q' hq'))
  · rw [hfs3, hfs2]
    exact ⟨rfl, rfl⟩
  · have h3 : s3.page g = s2.page g := by rw [hs3]; rfl
    rw [h3, hf.page g (by omega), hpage1]
    exact hne g (by omega)
  · refine Own.congr h₂ (fun g => ?_) (by rw [hfs3])
    rw [owned_of_not hnot, hfs3, hfs2, Nat.zero_add]
  · rw [hfs3]
    exact hN.refree hfs2 (h₂.pipe_le (R := pipePage s.fs.file) (fun _ => le_rfl)
      fun _ => Nat.le_add_left ..)
  · rw [hstate, hfs3, hfs2]
    have hcwd := h.cwd q hq
    rw [hz] at hcwd
    exact (by simp : ProcState.unused = .live ↔ ProcState.zombie = .live).trans hcwd
  · rw [hstate] at hl
    exact absurd hl (by simp)

/-- `wait` changes nothing or reaps one zombie. -/
lemma Inv.wait (h : Inv sy T s) :
    (wait sy p).wp (fun _ s' => Clean s' → Inv sy T s') AnyPanic s := by
  rw [Vm.wait]
  refine wp_bind.mpr (wp_act.mpr ?_)
  split_ifs
  swap
  · trivial
  simp only [wp_ret, id]
  cases hq : s.zombieChild p with
  | none => exact fun _ => h
  | some q =>
    obtain ⟨-, hlt, hzombie, -⟩ := findFrom_some hq
    rw [Nat.zero_add] at hlt
    exact h.reap hlt (of_decide_eq_true hzombie).2

lemma parent_others {n : Nat} (hp : p < NPROC) (hl : (s.pcb p).state = .live) :
    Parent s.others (fun v => s.page ((s.leaf (s.pcb p).pgdir v).getD 0)) AnyPanic
      (s.pcb p).pgdir 0 n s := by
  refine parent_self (fun g hg => ?_) fun _ _ _ _ _ => trivial
  rw [others_eq hp, owned_of_has (.inl hl)]
  omega

/-- `fork` gives the child a kernel stack and an address space of its own. -/
lemma Inv.fork (h : Inv sy T s) (hp : p < NPROC) (hl : (s.pcb p).state = .live) :
    (fork sy p).wp (fun _ s' => Clean s' → Inv sy T s') AnyPanic s := by
  obtain ⟨N, hN⟩ := h.settled
  refine wp_fork h.own (by simp [hl]) (h.sz_lt p hp hl).le (parent_others hp hl) (fun _ _ => h)
    (fun np g l s1 d s2 ha _ hd => ?_) fun _ _ _ _ hu hc => absurd hc (not_clean hu.failed)
  have h₂ := hd.space
  have hf := hd.frame
  obtain ⟨s3, hs3⟩ : ∃ s3, s3 = s2.setPcb np fun c =>
      { c with pgdir := d, parent := some p, esp := (s2.pcb p).esp } := ⟨_, rfl⟩
  rw [← hs3]
  -- so far only the free list of the file system state has changed
  have hfs3 : s3.fs = { s.fs with freelist := s3.fs.freelist } := by
    have h3 : s3.fs = s2.fs := by rw [hs3]; rfl
    rw [h3, hf.fs, ha.fs]
  have hpipe : ∀ x, pipePage s.fs.file x ≤ plus s.others g x := fun x =>
    (Nat.le_add_left ..).trans (le_plus s.others g x)
  have hfree3 : s3.fs.freelist = s2.fs.freelist := by rw [hs3]; rfl
  obtain ⟨N', hN'⟩ := hN.refree hfs3 fun x => by
    rw [hfree3]
    exact Own.pipe_le h₂ hpipe (fun _ => Nat.le_add_left ..) x
  have hcwd : (s3.fs.proc np).cwd = none := by
    rw [hfs3]
    by_contra hsome
    have hlive := (h.cwd np ha.lt).mpr hsome
    rw [ha.unused] at hlive
    exact absurd hlive (by simp)
  have hlive3 : Live s3.fs p := by
    rw [hfs3]
    exact ⟨hp, (h.cwd p hp).mp hl⟩
  have hnew : ∀ q, some np = some q → q < NPROC ∧ (s3.fs.proc q).cwd = none := by
    rintro q ⟨⟩
    exact ⟨ha.lt, hcwd⟩
  refine wp_call (wp_onFs (wp_and (settled_fork hN' hlive3 hnew) wp_fork_procs)) ?_
  rintro r s4 ⟨fs, rfl, hN4, hchild, hproc⟩
  rw [wp_write]
  intro _
  obtain ⟨s5, hs5⟩ : ∃ s5, s5 = ({ s3 with fs := fs } : State).setPcb np fun c =>
    { c with state := .live } :=
    ⟨_, rfl⟩
  have hfs5 : s5.fs = fs := by rw [hs5]; rfl
  have hpage5 : s5.page = s2.page := by rw [hs5, hs3]; rfl
  have hpcb5 : s5.pcb np =
      { state := .live, parent := some p, pgdir := d, kstack := g, esp := (s2.pcb p).esp } := by
    have h2 : s2.pcb np = { s.pcb np with state := .embryo, kstack := g } := by
      rw [hf.pcb, ha.pcb, upd_same]
    rw [hs5, hs3]
    simp [State.setPcb, h2]
  have hother : ∀ q, q ≠ np → s5.pcb q = s.pcb q := fun q hq => by
    have h2 : s2.pcb q = s.pcb q := by rw [hf.pcb, ha.pcb, upd_ne hq]
    rw [hs5, hs3]
    simp [State.setPcb, upd_ne hq, h2]
  have hprocs : ∀ q, (s3.fs.proc q) = s.fs.proc q := fun q => by rw [hfs3]
  change Inv sy T (({ s3 with fs := fs } : State).setPcb np fun c => { c with state := .live })
  rw [← hs5]
  have howned : ∀ x, s5.owned np x = s2.mass d x + [g].count x := fun x => by
    rw [owned_of_has (by rw [hpcb5]; exact .inl rfl), hpcb5, mass_of_page hpage5]
  have hzero : ∀ x, s.owned np x = 0 := owned_of_not fun hh => by
    unfold Pcb.Has at hh
    rw [ha.unused] at hh
    simp at hh
  refine h.change ha.lt (fun q _ hq => hother q hq) (fun q hq => ?_) (fun x hx => ?_)
    ⟨fun x => ?_, h.own.once, h.own.valid⟩ ⟨N', by rw [hfs5]; exact hN4⟩ ?_ fun _ => ⟨?_, ?_⟩
  · rw [hfs5, (hproc q hq).1, (hproc q hq).2, hprocs]
    exact ⟨rfl, rfl⟩
  · rw [hpage5, hf.page x ?_, ha.page]
    have := others_eq ha.lt s x
    have := le_plus s.others g x
    omega
  · have h1 := h₂.count x
    have h2 := hN'.books.table.pages x
    have h3 := hN4.books.table.pages x
    have h4 := others_eq ha.lt s x
    have h5 : pipePage s3.fs.file x = pipePage s.fs.file x := by rw [hfs3]
    rw [hzero] at h4
    simp only [plus] at h1
    rw [hfree3] at h2
    rw [howned, hfs5]
    omega
  · rw [hpcb5, hfs5]
    exact iff_of_true rfl hchild.2
  · rw [hfs5, hchild.1, hprocs]
    exact h.sz_lt p hp hl
  · rw [hpcb5, hfs5, hchild.1, hprocs]
    exact (hd.exactly.shape (h.sz_lt p hp hl).le).congr (fun j => table_congr (by rw [hpage5]) j)
      fun v hv => pte_of_page hpage5 hv

/-- Each call keeps the pages. -/
lemma Inv.call (h : Inv sy T s) (hp : p < NPROC) (hl : (s.pcb p).state = .live) {call : Call}
    (hfits : call.Fits) : (call.code sy p).wp (fun _ s' => Clean s' → Inv sy T s') AnyPanic s := by
  obtain ⟨N, hN⟩ := h.settled
  have hlive := h.isLive hp hl
  have hsz := h.sz_lt p hp hl
  have hshape := h.shape p hp hl
  have hspace := h.space hp (.inl hl)
  have hpipe : ∀ g, pipePage s.fs.file g ≤ s.beside p g := fun g => by
    unfold State.beside
    omega
  cases call with
  | fork => exact h.fork hp hl
  | exec path argv junk =>
    exact wp_mono (clean_exec hN hsz hshape hpipe hp hspace hfits)
      (fun _ _ hr hc => h.remapped hp hl (hr hc)) fun _ _ _ => trivial
  | sbrk n =>
    exact wp_mono (clean_growproc hspace hsz hshape hN hpipe n.toInt)
      (fun _ _ hr hc => h.remapped hp hl (hr hc)) fun _ _ _ => trivial
  | pipe ptr => exact h.onFs (fun _ hN => settled_sysPipe hN hlive ptr) sizes_sysPipe
  | close fd => exact h.onFs (fun _ hN => settled_sysClose hN hlive fd) sizes_sysClose
  | exit => exact h.exit hp hl
  | wait => exact h.wait

end Inv

/-! ### The first process -/

section Userinit

variable {sy : Symbols} {T R : Nat → Nat} {s s' : State} {d : Nat} {init : List Byte}
  {Q : Unit → State → Prop} {E : Option Panic → State → Prop}

/-- `inituvm` maps one page, if there is a page for it and for its table. -/
lemma wp_inituvm (h : Space sy T R d s) (hbare : ∀ v < NUSER, s.pte d v = none)
    (hlong : PGSIZE ≤ init.length → E (some .inituvm) s)
    (hok : ∀ s', Space sy T R d s' → Frame R s s' → Exactly s' d PGSIZE → s'.failed = s.failed →
      (s.table d 0 = none → s.fs.freelist.length = s'.fs.freelist.length + 2) → Q () s')
    (hfail : ∀ s', s'.failed = true → s.fs.freelist.length ≤ s.lacking d → Q () s' ∧ ∀ e, E e s') :
    (inituvm d init).wp Q E s := by
  rw [inituvm]
  split_ifs with hinit
  · exact hlong hinit
  refine wp_bind.mpr (wp_kalloc_space h (fun g l hfree h₁ => ?_) fun hfree => ?_)
  swap
  · exact (hfail _ rfl (by rw [hfree]; exact Nat.zero_le _)).2 _
  obtain ⟨h₂, hfr, htable, hpte⟩ := h₁.setPage fun _ => 0
  obtain ⟨s2, hs2⟩ : ∃ s2, s2 = (s.setFree l).setPage g fun _ => 0 := ⟨_, rfl⟩
  rw [← hs2] at h₂ hfr
  have hfr2 : Frame R s s2 := (frame_setFree R s l).trans hfr
  have htable2 : ∀ i, s2.table d i = s.table d i := by rw [hs2]; exact htable
  have hpte2 : ∀ w < NPAGES, s2.pte d w = s.pte d w := by rw [hs2]; exact hpte
  have hfree2 : s2.fs.freelist = l := by rw [hs2]; rfl
  have hfailed2 : s2.failed = s.failed := by rw [hs2]; rfl
  have h0 : 0 < NUSER := by decide
  simp only [wp_memset]
  rw [← hs2]
  refine wp_bind.mpr (wp_mapUser (v := 0) h₂ h0 ?_ (fun s3 h3 hm _ _ => ?_) fun ht hl => ?_)
  · rw [hpte2 0 (by decide)]
    exact hbare 0 h0
  · have hleaf : s3.leaf d 0 = some g := by
      rw [State.leaf, hm.pte 0 (by decide), if_pos rfl, Option.map_some, frame_add g (by decide)]
    obtain ⟨h4, -, hpte4⟩ := h3.views (u := s3.setPage g ((s3.page g).splice 0 init))
      (State.setPage_ne (h3.leaf_ne_dir h0 hleaf).symm)
      (fun i hi t ht => State.setPage_ne (h3.leaf_ne_table h0 hleaf hi ht)) rfl
    have hR : R g = 0 := h3.rest_zero (mass_leaf h0 hleaf)
    refine hok _ h4 ((hfr2.trans hm.frame).trans (frame_setPage hR)) (fun v hv => ?_)
      (hm.failed.trans hfailed2) fun hnone => ?_
    swap
    · have hlen := hm.length
      rw [hfree2, if_pos ((htable2 _).trans hnone)] at hlen
      rw [hfree, List.length_cons, hlen]
      rfl
    have hvp : v < NPAGES := hv.trans (by decide)
    rw [hpte4 v hvp, hm.pte v hvp, ← lt_pages]
    by_cases hv0 : v = 0
    · rw [if_pos hv0, hv0]
      exact iff_of_true (by simp) (by decide)
    · rw [if_neg hv0, hpte2 v hvp, hbare v hv]
      exact iff_of_false (by simp) (by change ¬ v < 1; omega)
  · refine (hfail _ rfl ?_).1
    have hlack := lacking_pos (s := s) (div_lt_tables (v := 0) (by decide))
      (by rw [← htable2]; exact ht)
    rw [hfree, ← hfree2, hl]
    exact hlack

variable {sect page : Nat → Bytes} {l : List Nat}

/-- What `userinit` has made of the kernel with the free pages `l`, of which 68 are in use. -/
structure FirstProcess (sect : Nat → Bytes) (l : List Nat) (s : State) : Prop where
  fs : s.fs = { Xv6.boot sect with
    freelist := s.fs.freelist, proc := upd (fun _ => {}) 0 { sz := PGSIZE, cwd := some 0 } }
  free : l.length = s.fs.freelist.length + 68
  state : ∀ q, (s.pcb q).state = if q = 0 then .live else .unused
  exactly : Exactly s (s.pcb 0).pgdir PGSIZE

/-- Process 0 has the kernel stack `g` and the directory `d`, and its program is loaded. -/
structure Loaded (sy : Symbols) (sect : Nat → Bytes) (l : List Nat) (d g : Nat) (s : State) :
    Prop where
  space : Space sy (l.count ·) (plus (fun _ => 0) g) d s
  exactly : Exactly s d PGSIZE
  fs : s.fs = { Xv6.boot sect with freelist := s.fs.freelist }
  pcb : ∀ q, s.pcb q = if q = 0 then { state := .embryo, pgdir := d, kstack := g } else {}

/-- The end of `userinit`. -/
def State.readied (s : State) : State :=
  (s.setSz 0 PGSIZE).setPcb 0 fun c => { c with esp := PGSIZE, state := .live }

section Loaded

variable {g : Nat} (h : Loaded sy sect l d g s)

include h

lemma Loaded.readied_pcb (q : Nat) : s.readied.pcb q =
    if q = 0 then { state := .live, pgdir := d, kstack := g, esp := PGSIZE } else {} := by
  change (if q = 0 then { s.pcb 0 with esp := PGSIZE, state := .live } else s.pcb q) = _
  rw [h.pcb 0, if_pos rfl, h.pcb q]
  split_ifs <;> rfl

lemma Loaded.readied_fs : s.readied.fs = { Xv6.boot sect with
    freelist := s.fs.freelist, proc := upd (fun _ => {}) 0 { sz := PGSIZE, cwd := some 0 } } := by
  change s.fs.setProc 0 (fun pr => { pr with sz := PGSIZE }) = _
  rw [h.fs]
  refine congrArg (fun proc => { Xv6.boot sect with freelist := s.fs.freelist, proc := proc }) ?_
  funext q
  by_cases hq : q = 0 <;> simp [Xv6.boot, upd, hq]

lemma Loaded.first (hfree : l.length = s.fs.freelist.length + 68) :
    FirstProcess sect l s.readied := by
  refine ⟨h.readied_fs, hfree, fun q => ?_, ?_⟩
  · rw [h.readied_pcb]
    split_ifs <;> rfl
  · rw [h.readied_pcb, if_pos rfl]
    exact h.exactly

/-- The pages in use are those of process 0. -/
lemma Loaded.count (x : Nat) : s.fs.freelist.count x + s.readied.others x = l.count x := by
  have hcount := h.space.count x
  have hprocs : s.readied.procs 0 x = 0 := by
    refine Finset.sum_eq_zero fun q hq => owned_of_not ?_ x
    rw [h.readied_pcb, if_neg (Finset.ne_of_mem_erase hq)]
    simp [Pcb.Has]
  have howned : s.readied.owned 0 x = s.mass d x + [g].count x := by
    rw [owned_of_has (by rw [h.readied_pcb]; exact .inl rfl), h.readied_pcb, if_pos rfl]
    exact congrArg (· + _) (mass_of_page (s := s) (u := s.readied) rfl d x)
  have hpipe : pipePage s.readied.fs.file x = 0 := by
    rw [h.readied_fs]
    exact @boot_pipePage sect x
  simp only [plus] at hcount
  rw [others_eq (p := 0) (by decide), hprocs, howned, hpipe]
  omega

lemma Loaded.settled : ∃ N, Settled N s.readied.fs := by
  have hboot : Settled (fun _ => 0) (Xv6.boot sect) := settled_boot
  obtain ⟨N, hN⟩ := hboot.refree h.fs fun x => by
    have h1 : _ + (_ + _) ≤ 1 := Own.le_one h.space x
    rw [boot_pipePage]
    omega
  exact ⟨N, hN.setProc (u := fun pr => { pr with sz := PGSIZE }) (fun _ => rfl) fun _ => rfl⟩

lemma Loaded.inv (hl : l.Nodup) (hv : ∀ g ∈ l, sy.Valid g) : Inv sy (l.count ·) s.readied := by
  have hzero : ∀ q, (s.readied.pcb q).state = .live → q = 0 := by
    intro q hq
    by_contra hne
    rw [h.readied_pcb, if_neg hne] at hq
    cases hq
  refine ⟨⟨h.count, List.nodup_iff_count_le_one.mp hl, fun g hg => hv g (List.count_pos_iff.mp hg)⟩,
    h.settled, fun q _ => ?_, fun q _ hq => ?_, fun q _ hq => ?_⟩
  · rw [h.readied_pcb, h.readied_fs]
    by_cases hq : q = 0 <;> simp [upd, hq]
  · rw [hzero q hq, h.readied_fs]
    exact (by decide : PGSIZE < KERNBASE)
  · rw [hzero q hq, h.readied_fs, h.readied_pcb, if_pos rfl]
    exact (h.exactly.shape (by decide)).congr (fun _ => rfl) fun _ _ => rfl

end Loaded

/-- The first process, if the free list is long enough for all its pages and tables. -/
lemma wp_userinit (hl : l.Nodup) (hv : ∀ g ∈ l, sy.Valid g)
    (hlong : PGSIZE ≤ init.length → ∀ s', E (some .inituvm) s')
    (hok : ∀ s', Inv sy (l.count ·) s' → FirstProcess sect l s' → Clean s' → Q () s')
    (hdirty : ∀ s', s'.failed = true → l.length < NPDENTRIES + 3 → Q () s')
    (hfail : ∀ e s', l.length < NPDENTRIES + 3 → E e s') :
    (userinit sy init).wp Q E (boot sect page l) := by
  have hown : Own sy (l.count ·) (fun _ => 0) (boot sect page l) :=
    ⟨fun _ => rfl, List.nodup_iff_count_le_one.mp hl, fun g hg => hv g (List.count_pos_iff.mp hg)⟩
  have hstart : ∀ q, ((boot sect page l).pcb q).state = .unused := fun _ => rfl
  rw [userinit]
  refine wp_bind.mpr (wp_allocproc hown (fun hall => absurd (hstart 0) (hall 0 (by decide)))
    (fun np g l1 s1 ha h₁ => ?_) fun s1 hu => ?_)
  swap
  · refine hfail _ _ ?_
    have hl0 : l = [] := hu.free
    rw [hl0]
    decide
  -- process 0 gets the first page as its kernel stack
  obtain rfl : np = 0 := by
    by_contra hne
    exact ha.first 0 (by omega) (hstart 0)
  have hlen1 : l.length = s1.fs.freelist.length + 1 := by
    rw [show l = g :: l1 from ha.free, ha.fs]
    rfl
  refine wp_bind.mpr (wp_setupkvm_exact h₁ (fun d s2 h₂ hf hbare _ _ htab hfailed2 hlen2 => ?_)
    (fun hnil => hfail _ _ ?_) fun _ _ _ _ _ _ hlt => hfail _ _ ?_)
  -- without a directory or a kernel table it does not start
  rotate_left
  · rw [hlen1, hnil]
    decide
  · rw [NPDENTRIES]
    omega
  rw [wp_write]
  obtain ⟨s3, hs3⟩ : ∃ s3, s3 = s2.setPcb 0 fun c => { c with pgdir := d } := ⟨_, rfl⟩
  have hpage3 : s3.page = s2.page := by rw [hs3]; rfl
  have hfs3 : s3.fs = s2.fs := by rw [hs3]; rfl
  have htab3 : ∀ j < NPDENTRIES, s3.table d j = none ↔ ¬ KernelTable j := by
    intro j hj
    rw [table_congr (s := s2) (by rw [hpage3]) j]
    exact htab j hj
  have hlack : s3.lacking d = 960 := lacking_kernel htab3
  rw [← hs3]
  refine wp_bind.mpr (wp_inituvm (h₂.congr hpage3 (by rw [hfs3])) (fun v hv => ?_)
    (fun hlen => hlong hlen _)
    (fun s4 h4 hf4 hex hfailed4 hfree4 => ?_) fun s4 hfailed4 hlen => ⟨?_, fun e => hfail _ _ ?_⟩)
  · rw [pte_of_page hpage3 (hv.trans (by decide))]
    exact hbare v hv
  rotate_left
  · rw [wp_write]
    refine hdirty _ hfailed4 ?_
    rw [hfs3, hlack] at hlen
    rw [NPDENTRIES]
    omega
  · rw [hfs3, hlack] at hlen
    rw [NPDENTRIES]
    omega
  -- the program is loaded
  have hloaded : Loaded sy sect l d g s4 := by
    refine ⟨h4, hex, ?_, fun q => ?_⟩
    · rw [hf4.fs, hfs3, hf.fs, ha.fs]
      rfl
    · rw [hf4.pcb, hs3]
      change (if q = 0 then { s2.pcb 0 with pgdir := d } else s2.pcb q) = _
      rw [hf.pcb, ha.pcb]
      by_cases hq : q = 0
      · rw [if_pos hq, if_pos hq, upd_same]
        rfl
      · rw [if_neg hq, if_neg hq, upd_ne hq]
        rfl
  rw [wp_write]
  refine hok _ (hloaded.inv hl hv) (hloaded.first ?_) ⟨?_, ?_⟩
  · have hlen4 := hfree4 ((htab3 0 (by decide)).mpr (by simp [KernelTable]))
    rw [hfs3] at hlen4
    omega
  · change s4.failed = false
    rw [hfailed4, hs3]
    exact hfailed2.trans ha.failed
  · change s4.wrapped = false
    rw [hf4.wrapped, hs3]
    exact hf.wrapped.trans ha.wrapped

end Userinit

/-! ### Runs -/

section Run

variable {sy : Symbols} {s s' : State} {p : Nat} {l : List Nat}

lemma sticky_setupkvm : (setupkvm sy).acts Sticky := grants_sticky.setupkvm

lemma sticky_fork : (fork sy p).acts Sticky := by
  have hset {α : Type} {u : State → State} {a : α} (hu : ∀ s, Sticky s (u s)) :
      (do write u; pure a : V α).acts Sticky := acts_bind (sticky_write hu) fun _ => trivial
  refine acts_option (acts_option ⟨fun s _ => ?_, fun _ => trivial⟩ trivial fun np => ?_) trivial
    fun np => acts_bind sticky_read fun _ => acts_bind sticky_read fun _ =>
      acts_option ?_ ?_ fun d => ?_
  · dsimp only
    split <;> exact ⟨id, id⟩
  · exact acts_option sticky_kalloc (hset fun _ => ⟨id, id⟩) fun _ => hset fun _ => ⟨id, id⟩
  · exact acts_option sticky_setupkvm trivial fun _ => acts_bool (sticky_copyuvmLoop ..)
      (acts_bind sticky_freevm fun _ => trivial) trivial
  · exact acts_bind sticky_read fun _ => acts_bind sticky_kfree fun _ => hset fun _ => ⟨id, id⟩
  · exact acts_bind (sticky_write fun _ => ⟨id, id⟩) fun _ => acts_bind (sticky_onFs _) fun _ =>
      hset fun _ => ⟨id, id⟩

lemma sticky_exec {path junk : List Byte} {argv : List (List Byte)} :
    (exec sy p path argv junk).acts Sticky := by
  refine acts_option (sticky_onFs _) trivial fun ip => acts_bind (sticky_onFs _) fun _ =>
    acts_bind (sticky_onFs _) fun r => ?_
  dsimp only
  generalize cstr (if r.1 = -1 then junk else r.2) = elf
  exact acts_ite sticky_execBad <| acts_ite sticky_execBad <| acts_option sticky_setupkvm
    sticky_execBad fun _ => acts_option (sticky_execLoop ..) sticky_execBad fun _ =>
      acts_bind (sticky_onFs _) fun _ => sticky_execUser

lemma sticky_growproc {n : Int} : (growproc sy p n).acts Sticky :=
  acts_bind sticky_read fun _ => acts_bind sticky_read fun _ => acts_ite
    (acts_bind sticky_allocuvm fun _ => acts_ite trivial sticky_setSize) <| acts_ite
    (acts_bind sticky_deallocuvm fun _ => acts_ite trivial sticky_setSize) sticky_setSize

lemma sticky_wait : (wait sy p).acts Sticky :=
  acts_option ⟨fun _ _ => ⟨id, id⟩, fun _ => trivial⟩ trivial fun _ => acts_bind sticky_read
    fun _ => acts_bind sticky_kfree fun _ => acts_bind (sticky_write fun _ => ⟨id, id⟩) fun _ =>
    acts_bind sticky_read fun _ => acts_bind sticky_freevm fun _ =>
    acts_bind (sticky_write fun _ => ⟨id, id⟩) fun _ => trivial

lemma sticky_code (call : Call) : (call.code sy p).acts Sticky := by
  cases call with
  | fork => exact sticky_fork
  | exec path argv junk => exact sticky_exec
  | sbrk n => exact sticky_growproc
  | pipe ptr => exact sticky_onFs _
  | close fd => exact sticky_onFs _
  | exit =>
    exact acts_bind (sticky_onFs _) fun _ =>
      acts_bind (sticky_write fun _ => ⟨id, id⟩) fun _ => trivial
  | wait => exact sticky_wait

/-- Each page is in one place in every state that a run reaches in which no `kalloc` has failed. -/
lemma Reachable.inv (h : Reachable sy l s) (hl : l.Nodup) (hv : ∀ g ∈ l, sy.Valid g)
    (hc : Clean s) :
    Inv sy (l.count ·) s := by
  induction h with
  | userinit h =>
    rename_i sect page init s
    have hwp : (Vm.userinit sy init).wp (fun _ s' => Clean s' → Inv sy (l.count ·) s') AnyPanic
        (boot sect page l) :=
      wp_userinit hl hv (fun _ _ => trivial) (fun s' hi _ _ _ => hi)
        (fun s' hs _ hc => absurd hc (not_clean hs)) fun _ _ _ => trivial
    exact wp_ok hwp h hc
  | call h hp hlive hfits hr ih =>
    have hsticky := wp_ok (wp_sticky (sticky_code _)) hr
    have hcode := wp_ok ((ih (hsticky.clean hc)).call hp hlive hfits) hr
    exact hcode hc

end Run

/-! ### The number of pages -/

/-- The pages of the address space with directory `d`: directory, page tables and user pages. -/
def State.spaceSize (s : State) (d : Nat) : Nat :=
  1 + ((Finset.range NPDENTRIES).filter fun i => s.table d i ≠ none).card +
    ((Finset.range NUSER).filter fun v => s.leaf d v ≠ none).card

/-- The pages of open pipes. -/
def State.pipes (s : State) : Finset Nat :=
  ((Finset.range NFILE).filter fun f => (s.fs.file f).type = .pipe).image fun f =>
    (s.fs.file f).pipe

/-- The pages on the free list, of live and zombie processes, each with a kernel stack, and of open
pipes. -/
def State.total (s : State) : Nat :=
  s.fs.freelist.length +
    ∑ q ∈ Finset.range NPROC, (if (s.pcb q).Has then s.spaceSize (s.pcb q).pgdir + 1 else 0) +
    s.pipes.card

section Total

variable {sy : Symbols} {s : State} {d q : Nat} {l : List Nat} {U : Finset Nat}

lemma sum_mass (h : ∀ g, 0 < s.mass d g → g ∈ U) : ∑ g ∈ U, s.mass d g = s.spaceSize d := by
  have hdir : ∑ g ∈ U, (if d = g then 1 else 0) = 1 := by
    rw [Finset.sum_ite_eq, if_pos (h d (mass_dir s d))]
  have htable := sum_occ (S := Finset.range NPDENTRIES) (v := s.table d) (U := U) fun i hi t ht =>
    h t (mass_table (Finset.mem_range.mp hi) ht)
  have hleaf := sum_occ (S := Finset.range NUSER) (v := s.leaf d) (U := U) fun v hv g hg =>
    h g (mass_leaf (Finset.mem_range.mp hv) hg)
  unfold State.mass State.spaceSize
  rw [Finset.sum_add_distrib, Finset.sum_add_distrib, hdir, htable, hleaf]

lemma pipePage_eq (g : Nat) : pipePage s.fs.file g = if g ∈ s.pipes then 1 else 0 := by
  unfold pipePage State.pipes File.IsEnd
  refine if_congr ?_ rfl rfl
  rw [Finset.mem_image]
  constructor
  · rintro ⟨f, hf, w, ht, hg, -⟩
    exact ⟨f, Finset.mem_filter.mpr ⟨Finset.mem_range.mpr hf, ht⟩, hg⟩
  · rintro ⟨f, hf, hg⟩
    obtain ⟨hf, ht⟩ := Finset.mem_filter.mp hf
    exact ⟨f, Finset.mem_range.mp hf, _, ht, hg, rfl⟩

lemma sum_pipePage (h : s.pipes ⊆ U) : ∑ g ∈ U, pipePage s.fs.file g = s.pipes.card := by
  simp only [pipePage_eq]
  rw [Finset.sum_ite_mem, Finset.inter_eq_right.mpr h, Finset.sum_const, smul_eq_mul, Nat.mul_one]

/-- When each page is in one place, the places hold as many pages as there are. -/
lemma Inv.total_eq (h : Inv sy (l.count ·) s) : s.total = l.length := by
  have hcount := h.own.count
  have hmem : ∀ g, 0 < s.fs.freelist.count g + s.others g → g ∈ l.toFinset := fun g hg => by
    rw [List.mem_toFinset, ← List.count_pos_iff, ← hcount g]
    exact hg
  have howned : ∀ q < NPROC, ∀ g, s.owned q g ≤ s.others g := fun q hq g => by
    rw [others_eq hq]
    omega
  have hfree : ∑ g ∈ l.toFinset, s.fs.freelist.count g = s.fs.freelist.length :=
    sum_list_count fun g hg => hmem g (Nat.add_pos_left (List.count_pos_iff.mpr hg) _)
  have hpipes : ∑ g ∈ l.toFinset, pipePage s.fs.file g = s.pipes.card := by
    refine sum_pipePage fun g hg => hmem g ?_
    have hle : pipePage s.fs.file g ≤ s.others g := Nat.le_add_left ..
    rw [pipePage_eq, if_pos hg] at hle
    omega
  have hprocs : ∀ q ∈ Finset.range NPROC, ∑ g ∈ l.toFinset, s.owned q g =
      if (s.pcb q).Has then s.spaceSize (s.pcb q).pgdir + 1 else 0 := by
    intro q hq
    have hq := Finset.mem_range.mp hq
    split_ifs with hhas
    · have hin : ∀ g, 0 < s.owned q g → g ∈ l.toFinset := fun g hg => hmem g (by
        have := howned q hq g
        omega)
      have hstack : ∑ g ∈ l.toFinset, [(s.pcb q).kstack].count g = 1 :=
        sum_list_count fun g hg => hin g (by
          rw [owned_of_has hhas]
          have := List.count_pos_iff.mpr hg
          omega)
      have hmass := sum_mass (s := s) (d := (s.pcb q).pgdir) (U := l.toFinset) fun g hg => hin g (by
        rw [owned_of_has hhas]
        omega)
      simp only [owned_of_has hhas]
      rw [Finset.sum_add_distrib, hmass, hstack]
    · exact Finset.sum_eq_zero fun g _ => owned_of_not hhas g
  have hall : ∑ g ∈ l.toFinset, (s.fs.freelist.count g + s.others g) = l.length := by
    rw [Finset.sum_congr rfl fun g _ => hcount g]
    exact sum_list_count fun g hg => List.mem_toFinset.mpr hg
  have hothers : ∑ g ∈ l.toFinset, s.others g =
      ∑ q ∈ Finset.range NPROC, (if (s.pcb q).Has then s.spaceSize (s.pcb q).pgdir + 1 else 0) +
        s.pipes.card := by
    unfold State.others
    rw [Finset.sum_add_distrib, Finset.sum_comm, Finset.sum_congr rfl hprocs, hpipes]
  rw [Finset.sum_add_distrib, hfree, hothers] at hall
  unfold State.total
  omega

end Total

end Xv6.Vm
