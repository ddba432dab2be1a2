import Xv6.Kernel.Machine

/-!
# The process table and the CPUs

One invariant for the process table and for the processes on the CPUs, kept by every action of every
interleaving of the calls of processes and the rounds of the schedulers.
-/

namespace Xv6.Kernel

open Lib Prog

variable {X : Type}

/-! ### The machine -/

section Machine

variable {s s' : Machine X} {c c' p q : Nat} {t : Tid} {lk : Lk} {f : Pcb → Pcb}

@[simp] lemma setProc_same : (s.setProc p f).proc p = f (s.proc p) := by simp [Machine.setProc]

lemma setProc_ne (h : q ≠ p) : (s.setProc p f).proc q = s.proc q := by
  simp [Machine.setProc, upd_ne h]

@[simp] lemma take_proc : (s.take t lk).proc = s.proc := rfl
@[simp] lemma take_lock : (s.take t lk).lock lk = s.cpu t := by simp [Machine.take]

lemma take_lock_ne {lk' : Lk} (h : lk' ≠ lk) : (s.take t lk).lock lk' = s.lock lk' := by
  simp [Machine.take, h]

@[simp] lemma drop_proc : (s.drop t lk).proc = s.proc := rfl

lemma drop_lock_ne {lk' : Lk} (h : lk' ≠ lk) : (s.drop t lk).lock lk' = s.lock lk' := by
  simp [Machine.drop, h]

lemma cur_of_on (h : s.on c = some p) : s.cur c = .proc p := by simp [Machine.cur, h]

lemma cur_of_none (h : s.on c = none) : s.cur c = .cpu c := by simp [Machine.cur, h]

lemma cur_eq_proc : s.cur c = .proc p ↔ s.on c = some p := by
  unfold Machine.cur
  cases s.on c <;> simp

lemma cur_eq_cpu : s.cur c = .cpu c' ↔ c = c' ∧ s.on c = none := by
  unfold Machine.cur
  cases s.on c <;> simp

/-- The CPU that executes a thread. -/
lemma cpu_some (h : s.cpu t = some c) : c < s.ncpu ∧ s.cur c = t := by
  refine ⟨?_, ?_⟩
  · exact List.mem_range.mp (List.mem_of_find?_eq_some h)
  · simpa using List.find?_some h

lemma exists_cpu (h : s.runs t = true) : ∃ c, s.cpu t = some c ∧ s.fresh t = false := by
  unfold Machine.runs at h
  rw [Bool.and_eq_true, Option.isSome_iff_exists] at h
  obtain ⟨⟨c, hc⟩, hf⟩ := h
  exact ⟨c, hc, by simpa using hf⟩

end Machine

/-! ### The invariant -/

/-- Where a thread is with respect to `ptable.lock` and `swtch`. -/
inductive Phase
  /-- It does not hold the lock. -/
  | normal
  /-- It holds the lock. -/
  | locked
  /-- It holds the lock and has passed its children to init. -/
  | orphaned
  /-- It holds the lock and has given up its state: `swtch` comes next. -/
  | leaving
  /-- It has called `swtch`. -/
  | out
  /-- A scheduler that is about to switch to a process. -/
  | picked (p : Nat)
  deriving DecidableEq

/-- The mode of a thread: its phase, and the entry it is making a new process of, with whether it
has become the parent. -/
structure Mode where
  phase : Phase
  child : Option (Nat × Bool)

/-- A process that may act. -/
def Alive (s : Machine X) (p : Nat) : Prop :=
  (s.proc p).state = .sleeping ∨ (s.proc p).state = .runnable ∨ (s.proc p).state = .running

/-- A process keeps its state, or it is woken up. -/
def Wakes (a b : Pcb) : Prop := b.state = a.state ∨ a.state = .sleeping ∧ b.state = .runnable

/-- What may happen to an entry while its process does nothing: it gets a mark or a parent, its
times are counted, and its process is woken up. -/
structure Touched (a b : Pcb) : Prop where
  pid : b.pid = a.pid
  kstack : b.kstack = a.kstack
  forkret : b.forkret = a.forkret
  chan : b.chan = a.chan
  state : Wakes a b

lemma Touched.refl (a : Pcb) : Touched a a := ⟨rfl, rfl, rfl, rfl, .inl rfl⟩

lemma Touched.asleep {a b : Pcb} (h : Touched a b) (hb : b.state = .sleeping) :
    a.state = .sleeping ∧ b.chan = a.chan := by
  rcases h.state with he | ⟨h1, -⟩
  · exact ⟨he ▸ hb, h.chan⟩
  · exact ⟨h1, h.chan⟩

/-- The processes on the CPUs. -/
structure Cpus (s : Machine X) (mode : Tid → Mode) : Prop where
  on_lt : ∀ c p, s.on c = some p → c < s.ncpu ∧ p < s.nproc
  inj : ∀ c c' p, s.on c = some p → s.on c' = some p → c = c'
  on_state : ∀ c p, s.on c = some p →
    ((mode (.proc p)).phase ≠ .leaving → (s.proc p).state = .running) ∧
    (s.proc p).state ≠ .embryo ∧ (s.proc p).state ≠ .unused
  held : ∀ t, (mode t).phase ≠ .normal → (mode t).phase ≠ .out →
    ∃ c, c < s.ncpu ∧ s.cur c = t ∧ s.lock .ptable = some c
  resumed : ∀ c p, s.on c = some p → (mode (.proc p)).phase = .out ∨ (s.proc p).forkret = true →
    s.lock .ptable = some c
  picked : ∀ c p, (mode (.cpu c)).phase = .picked p →
    (s.proc p).state = .running ∧ p < s.nproc ∧ ∀ c', s.on c' ≠ some p
  sched_out : ∀ c, c < s.ncpu → (mode (.cpu c)).phase = .out → s.on c = none →
    s.lock .ptable = some c
  sched_in : ∀ c p, s.on c = some p → (mode (.cpu c)).phase = .out

/-- The process table, but for its pids. -/
structure Table (s : Machine X) (mode : Tid → Mode) : Prop where
  bound : ∀ p, s.nproc ≤ p → (s.proc p).state = .unused
  init : Alive s initproc
  parent : ∀ p q, (s.proc p).parent = some q → (s.proc p).state ≠ .unused ∧ Alive s q
  has_parent : ∀ p, (s.proc p).state ≠ .unused → (s.proc p).state ≠ .embryo → p ≠ initproc →
    ∃ q, (s.proc p).parent = some q
  orphaned : ∀ p, (mode (.proc p)).phase = .orphaned →
    p ≠ initproc ∧ ∀ z, (s.proc z).parent ≠ some p
  child : ∀ p np b, (mode (.proc p)).child = some (np, b) →
    (s.proc np).state = .embryo ∧ (s.proc np).parent = if b then some p else none
  child_inj : ∀ p q np b b', (mode (.proc p)).child = some (np, b) →
    (mode (.proc q)).child = some (np, b') → p = q

/-- What an action with label `l` guarantees for entry `z`. -/
structure EntryGuar (l : Label) (s s' : Machine X) (z : Nat) : Prop where
  /-- Kernel stacks are freed only when no CPU executes on them. -/
  stack : (s.proc z).kstack = true → (s'.proc z).kstack = false → ∀ c, s.on c ≠ some z
  /-- Zombies stay until their parent waits for them. -/
  zombie : (s.proc z).state = .zombie →
    ((s'.proc z).state = .zombie ∧ (s'.proc z).pid = (s.proc z).pid) ∨
      ∃ q, (s.proc z).parent = some q ∧ s'.log = .waited q (s.proc z).pid :: s.log
  pid : (s.proc z).state ≠ .unused → (s'.proc z).state ≠ .unused →
    (s'.proc z).pid = (s.proc z).pid
  created : (s.proc z).state = .unused → (s'.proc z).state ≠ .unused →
    s'.log = .created z (s'.proc z).pid :: s.log
  /-- Processes are marked by `kill` and by traps. -/
  killed : (s'.proc z).killed = true → (s.proc z).killed = true ∨
    (∃ pid, l = .kill pid ∧ s.findPid pid = some z) ∨
    ((s.proc z).state ≠ .unused ∧ s'.log = .trapped (s.proc z).pid :: s.log)
  /-- An entry is given back without the mark, but for failures of `fork`. -/
  freed : (s'.proc z).state = .unused →
    ((s.proc z).state = .unused ∨ l = .forkFails z ∧ (s'.proc z).killed = (s.proc z).killed) ∨
      (s'.proc z).killed = false

/-- What an event says of the action with label `l` that tells it: `fork` reads the pid of a child
that it is making, `wait` finds a zombie of its process and frees the entry, and it fails only
without children or when killed. -/
def Told (l : Label) (s s' : Machine X) : Event → Prop
  | .forked q pid => ∃ z, (s.proc z).parent = some q ∧ (s.proc z).state = .embryo ∧
    (s.proc z).pid = pid
  | .waited q pid => ∃ z, (s.proc z).parent = some q ∧ (s.proc z).state = .zombie ∧
    (s.proc z).pid = pid ∧ (s'.proc z).state = .unused
  | .waitFailed q => (∀ z, (s.proc z).parent ≠ some q) ∨ (s.proc q).killed = true
  | .kill _ pid _ => l = .kill pid
  | _ => True

/-- What an action with label `l` guarantees. -/
structure Guar (l : Label) (s s' : Machine X) : Prop where
  entry : ∀ z, EntryGuar l s s' z
  log : s'.log = s.log ∨ ∃ e, s'.log = e :: s.log
  next : s'.nextpid = s.nextpid ∧ (∀ z pid, s'.log ≠ .created z pid :: s.log) ∨
    s'.nextpid = (BitVec.ofInt 32 (s.nextpid + 1)).toInt ∧
      ∃ z, (s.proc z).state = .unused ∧ s'.log = .created z s.nextpid :: s.log
  told : ∀ e, s'.log = e :: s.log → Told l s s' e
  kill : ∀ pid, l = .kill pid → ∃ p, s' = s.kill p pid

/-- The outline of the process table. -/
def tableOutline (n : Nat) : Outline Tid Label (Machine X) Mode where
  inv s mode := s.nproc = n ∧ Cpus s mode ∧ Table s mode
  guar _ l := Guar l
  cond _ _ _ := True

/-! ### The CPUs -/

/-- Thread `t` has come to another phase. -/
def withPhase (mode : Tid → Mode) (t : Tid) (ph : Phase) : Tid → Mode :=
  Function.update mode t { mode t with phase := ph }

section Phase

variable {mode : Tid → Mode} {t t' : Tid} {ph : Phase}

@[simp] lemma withPhase_same : (withPhase mode t ph t).phase = ph := by simp [withPhase]

lemma withPhase_ne (h : t' ≠ t) : withPhase mode t ph t' = mode t' := by simp [withPhase, h]

@[simp] lemma withPhase_child : (withPhase mode t ph t').child = (mode t').child := by
  by_cases h : t' = t
  · rw [h]
    simp [withPhase]
  · rw [withPhase_ne h]

end Phase

section Cpus

variable {s s' : Machine X} {mode mode' : Tid → Mode} {t t' : Tid} {c c' i p : Nat} {ph : Phase}

/-- A thread is executed by one CPU at most. -/
lemma Cpus.cur_inj (h : Cpus s mode) (hc : s.cur c = t) (hc' : s.cur c' = t) : c = c' := by
  cases t with
  | proc p => exact h.inj c c' p (cur_eq_proc.mp hc) (cur_eq_proc.mp hc')
  | cpu d => exact (cur_eq_cpu.mp hc).1.trans (cur_eq_cpu.mp hc').1.symm

/-- A thread that is executed and that is not in the normal phase holds the lock. -/
lemma Cpus.lock_of (h : Cpus s mode) (hc : s.cpu t = some c) (hp : (mode t).phase ≠ .normal) :
    s.lock .ptable = some c := by
  obtain ⟨hlt, hcur⟩ := cpu_some hc
  by_cases ho : (mode t).phase = .out
  · cases t with
    | proc p => exact h.resumed c p (cur_eq_proc.mp hcur) (.inl ho)
    | cpu d =>
      obtain ⟨rfl, hon⟩ := cur_eq_cpu.mp hcur
      exact h.sched_out c hlt ho hon
  · obtain ⟨c', -, hcur', hl⟩ := h.held t hp ho
    rw [h.cur_inj hcur hcur', hl]

/-- The thread that holds the lock. -/
lemma Cpus.held_eq (h : Cpus s mode) (hl : s.lock .ptable = some c) (hn : (mode t).phase ≠ .normal)
    (ho : (mode t).phase ≠ .out) : s.cur c = t := by
  obtain ⟨c', -, hcur, hl'⟩ := h.held t hn ho
  rw [hl] at hl'
  rw [Option.some.inj hl', hcur]

/-- What the processes that are not on a CPU do to their entries does not matter here. -/
lemma Cpus.congr (h : Cpus s mode) (hon : s'.on = s.on) (hncpu : s'.ncpu = s.ncpu)
    (hnproc : s'.nproc = s.nproc) (hlock : s'.lock .ptable = s.lock .ptable)
    (hphase : ∀ t, (mode' t).phase = (mode t).phase)
    (hproc : ∀ p, (∃ c, s.on c = some p) ∨ (s.proc p).state = .running →
      ((s.proc p).state = .running → (s'.proc p).state = .running) ∧
      (s'.proc p).state ≠ .embryo ∧ (s'.proc p).state ≠ .unused ∧
      ((s'.proc p).forkret = true → (s.proc p).forkret = true)) : Cpus s' mode' := by
  have hcur : ∀ c, s'.cur c = s.cur c := fun c => by
    unfold Machine.cur
    rw [hon]
  refine ⟨fun c p hc => ?_, fun c c' p hc hc' => ?_, fun c p hc => ?_, fun t hn ho => ?_,
    fun c p hc hr => ?_, fun c p hp => ?_, fun c hlt ho hc => ?_, fun c p hc => ?_⟩
  · rw [hon] at hc
    rw [hncpu, hnproc]
    exact h.on_lt c p hc
  · rw [hon] at hc hc'
    exact h.inj c c' p hc hc'
  · rw [hon] at hc
    rw [hphase]
    obtain ⟨h1, h2, h3, -⟩ := hproc p (.inl ⟨c, hc⟩)
    exact ⟨fun hp => h1 ((h.on_state c p hc).1 hp), h2, h3⟩
  · rw [hphase] at hn ho
    obtain ⟨c, hlt, hcur', hl⟩ := h.held t hn ho
    exact ⟨c, hncpu ▸ hlt, (hcur c).trans hcur', hlock.trans hl⟩
  · rw [hon] at hc
    rw [hphase] at hr
    rw [hlock]
    exact h.resumed c p hc (hr.imp_right (hproc p (.inl ⟨c, hc⟩)).2.2.2)
  · rw [hphase] at hp
    obtain ⟨h1, h2, h3⟩ := h.picked c p hp
    exact ⟨(hproc p (.inr h1)).1 h1, hnproc ▸ h2, fun c' => by rw [hon]; exact h3 c'⟩
  · rw [hphase] at ho
    rw [hon] at hc
    rw [hncpu] at hlt
    rw [hlock]
    exact h.sched_out c hlt ho hc
  · rw [hon] at hc
    rw [hphase]
    exact h.sched_in c p hc

/-- Processes may be woken up; they are on no CPU. -/
lemma Cpus.wake (h : Cpus s mode) (hon : s'.on = s.on) (hncpu : s'.ncpu = s.ncpu)
    (hnproc : s'.nproc = s.nproc) (hlock : s'.lock .ptable = s.lock .ptable)
    (hproc : ∀ q, (s'.proc q).forkret = (s.proc q).forkret ∧ Wakes (s.proc q) (s'.proc q)) :
    Cpus s' mode := by
  refine h.congr hon hncpu hnproc hlock (fun _ => rfl) fun q hq => ?_
  obtain ⟨hf, hst⟩ := hproc q
  have hold : (s.proc q).state ≠ .embryo ∧ (s.proc q).state ≠ .unused := by
    rcases hq with ⟨c, hc⟩ | hq
    · exact (h.on_state c q hc).2
    · simp [hq]
  rw [hf]
  rcases hst with he | ⟨h1, h2⟩
  · rw [he]
    exact ⟨id, hold.1, hold.2, id⟩
  · exact ⟨fun hr => by simp [h1] at hr, by simp [h2], by simp [h2], id⟩

/-- An action of the thread `t` that CPU `c` executes, while no other CPU has `ptable.lock`. The
other threads stay where they are, so that only this CPU and this thread have to be looked at. -/
lemma Cpus.act (h : Cpus s mode) (hlt : c < s.ncpu) (hcur : s.cur c = t)
    (hfree : ∀ c', s.lock .ptable = some c' → c' = c) (hncpu : s'.ncpu = s.ncpu)
    (hnproc : s'.nproc = s.nproc) (hon : ∀ c', c' ≠ c → s'.on c' = s.on c')
    (hmode : ∀ t', t' ≠ t → (mode' t').phase = (mode t').phase)
    (hproc : ∀ c' p, c' ≠ c → s.on c' = some p → s'.proc p = s.proc p)
    (hrun : ∀ p, s'.on c = some p → p < s.nproc ∧ (∀ c', c' ≠ c → s.on c' ≠ some p) ∧
      (((mode' (.proc p)).phase ≠ .leaving → (s'.proc p).state = .running) ∧
        (s'.proc p).state ≠ .embryo ∧ (s'.proc p).state ≠ .unused) ∧
      ((mode' (.proc p)).phase = .out ∨ (s'.proc p).forkret = true → s'.lock .ptable = some c) ∧
      (mode' (.cpu c)).phase = .out)
    (hidle : s'.on c = none → (mode' (.cpu c)).phase = .out → s'.lock .ptable = some c)
    (hheld : (mode' t).phase ≠ .normal → (mode' t).phase ≠ .out →
      s'.cur c = t ∧ s'.lock .ptable = some c)
    (hpicked : ∀ p, (mode' (.cpu c)).phase = .picked p →
      (s'.proc p).state = .running ∧ p < s.nproc ∧ ∀ c', s'.on c' ≠ some p) : Cpus s' mode' := by
  have hthis : ∀ {c' t'}, c' ≠ c → s.cur c' = t' → t' ≠ t := fun hcc hc' e =>
    hcc (h.cur_inj hc' (hcur.trans e.symm))
  -- the other threads do not have the lock
  have hquiet : ∀ t', t' ≠ t → (mode t').phase ≠ .normal → (mode t').phase = .out := by
    intro t' ht hn
    by_contra ho
    obtain ⟨c', -, hcur', hl⟩ := h.held t' hn ho
    exact ht (hcur'.symm.trans (hfree c' hl ▸ hcur))
  have hcpu : ∀ {c'}, c' ≠ c → (mode' (.cpu c')).phase = (mode (.cpu c')).phase := by
    intro c' hcc
    refine hmode _ fun e => ?_
    obtain ⟨rfl, -⟩ := cur_eq_cpu.mp (hcur.trans e.symm)
    exact hcc rfl
  refine ⟨fun c' p hq => ?_, fun c1 c2 p h1 h2 => ?_, fun c' p hq => ?_, fun t' hn ho => ?_,
    fun c' p hq hr => ?_, fun c' p hq => ?_, fun c' hlt' ho hno => ?_, fun c' p hq => ?_⟩
  · rw [hncpu, hnproc]
    by_cases hcc : c' = c
    · subst hcc
      exact ⟨hlt, (hrun p hq).1⟩
    · rw [hon c' hcc] at hq
      exact h.on_lt c' p hq
  · by_cases hc1 : c1 = c
    · subst hc1
      by_contra hne
      exact (hrun p h1).2.1 c2 (Ne.symm hne) (hon c2 (Ne.symm hne) ▸ h2)
    · by_cases hc2 : c2 = c
      · subst hc2
        exact absurd (hon c1 hc1 ▸ h1) ((hrun p h2).2.1 c1 hc1)
      · exact h.inj c1 c2 p (hon c1 hc1 ▸ h1) (hon c2 hc2 ▸ h2)
  · by_cases hcc : c' = c
    · subst hcc
      exact (hrun p hq).2.2.1
    · rw [hon c' hcc] at hq
      rw [hproc c' p hcc hq, hmode _ (hthis hcc (cur_of_on hq))]
      exact h.on_state c' p hq
  · by_cases ht : t' = t
    · subst ht
      exact ⟨c, hncpu ▸ hlt, hheld hn ho⟩
    · rw [hmode t' ht] at hn ho
      exact absurd (hquiet t' ht hn) ho
  · by_cases hcc : c' = c
    · subst hcc
      exact (hrun p hq).2.2.2.1 hr
    · rw [hon c' hcc] at hq
      rw [hproc c' p hcc hq, hmode _ (hthis hcc (cur_of_on hq))] at hr
      exact absurd (hfree c' (h.resumed c' p hq hr)) hcc
  · rw [hnproc]
    by_cases hcc : c' = c
    · subst hcc
      exact hpicked p hq
    · rw [hcpu hcc] at hq
      have hout := hquiet (.cpu c') (fun e => hcc (cur_eq_cpu.mp (hcur.trans e.symm)).1.symm)
      rw [hq] at hout
      cases hout (by simp)
  · by_cases hcc : c' = c
    · subst hcc
      exact hidle hno ho
    · rw [hon c' hcc] at hno
      rw [hcpu hcc] at ho
      exact absurd (hfree c' (h.sched_out c' (hncpu ▸ hlt') ho hno)) hcc
  · by_cases hcc : c' = c
    · subst hcc
      exact (hrun p hq).2.2.2.2
    · rw [hon c' hcc] at hq
      rw [hcpu hcc]
      exact h.sched_in c' p hq

/-- The same for a thread that stays on its CPU. -/
lemma Cpus.stay (h : Cpus s mode) (hlt : c < s.ncpu) (hcur : s.cur c = t)
    (hfree : ∀ c', s.lock .ptable = some c' → c' = c) (hncpu : s'.ncpu = s.ncpu)
    (hnproc : s'.nproc = s.nproc) (hon : s'.on = s.on)
    (hmode : ∀ t', t' ≠ t → (mode' t').phase = (mode t').phase)
    (hproc : ∀ p, Tid.proc p ≠ t → (∃ c', s.on c' = some p) → s'.proc p = s.proc p)
    (hstate : ∀ p, Tid.proc p = t → s.on c = some p →
      (((mode' t).phase ≠ .leaving → (s'.proc p).state = .running) ∧
        (s'.proc p).state ≠ .embryo ∧ (s'.proc p).state ≠ .unused) ∧
      ((mode' t).phase = .out ∨ (s'.proc p).forkret = true → s'.lock .ptable = some c))
    (hheld : (mode' t).phase ≠ .normal → s'.lock .ptable = some c)
    (hpicked : ∀ p, (mode' t).phase = .picked p →
      (s'.proc p).state = .running ∧ p < s.nproc ∧ ∀ c', s.on c' ≠ some p) : Cpus s' mode' := by
  have hcpu : ∀ p, s.on c = some p → (mode' (.cpu c)).phase = .out := by
    intro p hp
    rw [hmode _ (by rw [← hcur, cur_of_on hp]; simp)]
    exact h.sched_in c p hp
  have hidle : s.on c = none → Tid.cpu c = t := fun hno => (cur_of_none hno).symm.trans hcur
  refine h.act hlt hcur hfree hncpu hnproc (fun _ _ => by rw [hon]) hmode (fun c' p hcc hq => ?_)
    (fun p hq => ?_) (fun hno ho => ?_) (fun hn _ => ?_) fun p hq => ?_
  · exact hproc p (fun e => hcc (h.cur_inj (cur_of_on hq) (hcur.trans e.symm))) ⟨c', hq⟩
  · rw [hon] at hq
    have ht : Tid.proc p = t := (cur_of_on hq).symm.trans hcur
    obtain ⟨h1, h2⟩ := hstate p ht hq
    rw [ht]
    exact ⟨(h.on_lt c p hq).2, fun c' hcc hq' => hcc (h.inj c' c p hq' hq), h1, h2, hcpu p hq⟩
  · rw [hon] at hno
    rw [hidle hno] at ho
    exact hheld (by rw [ho]; simp)
  · refine ⟨?_, hheld hn⟩
    unfold Machine.cur
    rw [hon]
    exact hcur
  · rw [hon]
    cases hc : s.on c with
    | none => exact hpicked p (hidle hc ▸ hq)
    | some q =>
      rw [hcpu q hc] at hq
      cases hq

/-- Whoever has the lock is alone with it. -/
lemma lock_alone (hl : s.lock .ptable = some c) (c' : Nat) (hc' : s.lock .ptable = some c') :
    c' = c :=
  Option.some.inj (hc'.symm.trans hl)

/-- `ptable.lock` is taken. -/
lemma Cpus.take (h : Cpus s mode) (hc : s.cpu t = some c) (hl : s.lock .ptable = none) :
    Cpus (s.take t .ptable) (withPhase mode t .locked) := by
  obtain ⟨hlt, hcur⟩ := cpu_some hc
  have hfree : ∀ c', s.lock .ptable ≠ some c' := fun c' => by simp [hl]
  have hlock : (s.take t .ptable).lock .ptable = some c := by rw [take_lock, hc]
  refine h.stay hlt hcur (fun c' hc' => absurd hc' (hfree c')) rfl rfl rfl
    (fun t' ht => by rw [withPhase_ne ht]) (fun _ _ _ => rfl) (fun p ht hon => ⟨?_, fun _ => hlock⟩)
    (fun _ => hlock) fun p hp => ?_
  · obtain ⟨h1, h2⟩ := h.on_state c p hon
    refine ⟨fun _ => h1 fun hp => ?_, h2⟩
    obtain ⟨d, -, -, hd⟩ := h.held (.proc p) (by rw [hp]; simp) (by rw [hp]; simp)
    exact hfree d hd
  · rw [withPhase_same] at hp
    cases hp

/-- `ptable.lock` is released. -/
lemma Cpus.drop (h : Cpus s mode) (hc : s.cpu t = some c) (hf : s.fresh t = false)
    (hp : (mode t).phase = .locked ∨ (mode t).phase = .out) :
    Cpus (s.drop t .ptable) (withPhase mode t .normal) := by
  obtain ⟨hlt, hcur⟩ := cpu_some hc
  have hl : s.lock .ptable = some c := h.lock_of hc (by rcases hp with hp | hp <;> simp [hp])
  refine h.stay hlt hcur (lock_alone hl) rfl rfl rfl (fun t' ht => by rw [withPhase_ne ht])
    (fun _ _ _ => rfl) (fun p ht hon => ⟨?_, fun hr => ?_⟩) (fun hn => ?_) fun p hq => ?_
  · obtain ⟨h1, h2⟩ := h.on_state c p hon
    exact ⟨fun _ => h1 (by rw [ht]; rcases hp with hp | hp <;> simp [hp]), h2⟩
  · subst ht
    rw [withPhase_same] at hr
    rcases hr with hr | hr
    · cases hr
    · exact absurd hr (by simpa [Machine.fresh] using hf)
  · exact absurd withPhase_same hn
  · rw [withPhase_same] at hq
    cases hq

/-- The thread that holds the lock goes to another phase with the lock. -/
lemma Cpus.setPhase (h : Cpus s mode) (hc : s.cpu t = some c)
    (hp : (mode t).phase = .locked ∨ (mode t).phase = .out)
    (hph : ph = .locked ∨ ph = .orphaned) : Cpus s (withPhase mode t ph) := by
  obtain ⟨hlt, hcur⟩ := cpu_some hc
  have hl : s.lock .ptable = some c := h.lock_of hc (by rcases hp with hp | hp <;> simp [hp])
  refine h.stay hlt hcur (lock_alone hl) rfl rfl rfl (fun t' ht => by rw [withPhase_ne ht])
    (fun _ _ _ => rfl) (fun p ht hon => ⟨?_, fun _ => hl⟩) (fun _ => hl) fun p hq => ?_
  · obtain ⟨h1, h2⟩ := h.on_state c p hon
    exact ⟨fun _ => h1 (by rw [ht]; rcases hp with hp | hp <;> simp [hp]), h2⟩
  · rw [withPhase_same] at hq
    rcases hph with rfl | rfl <;> cases hq

/-- A process gives up its state before it calls `swtch`. -/
lemma Cpus.leave (h : Cpus s mode) (hc : s.cpu (.proc p) = some c)
    (hp : (mode (.proc p)).phase = .locked ∨ (mode (.proc p)).phase = .orphaned) {f : Pcb → Pcb}
    (hs : (f (s.proc p)).state ≠ .embryo ∧ (f (s.proc p)).state ≠ .unused) :
    Cpus (s.setProc p f) (withPhase mode (.proc p) .leaving) := by
  obtain ⟨hlt, hcur⟩ := cpu_some hc
  have hl : s.lock .ptable = some c := h.lock_of hc (by rcases hp with hp | hp <;> simp [hp])
  refine h.stay hlt hcur (lock_alone hl) rfl rfl rfl (fun t' ht => by rw [withPhase_ne ht])
    (fun q hq _ => setProc_ne fun e => hq (e ▸ rfl)) (fun q hq _ => ⟨?_, fun _ => hl⟩)
    (fun _ => hl) fun q hq => ?_
  · obtain rfl := Tid.proc.inj hq
    rw [setProc_same]
    exact ⟨fun hne => absurd withPhase_same hne, hs⟩
  · rw [withPhase_same] at hq
    cases hq

lemma switchOut_eq (hc : s.cpu (.proc p) = some c) :
    s.switchOut p = { s with on := upd s.on c none } := by
  unfold Machine.switchOut
  rw [hc]

/-- `swtch` to the scheduler. -/
lemma Cpus.switchOut (h : Cpus s mode) (hc : s.cpu (.proc p) = some c)
    (hp : (mode (.proc p)).phase = .leaving) (hph : ph = .out ∨ ph = .normal) :
    Cpus (s.switchOut p) (withPhase mode (.proc p) ph) := by
  obtain ⟨hlt, hcur⟩ := cpu_some hc
  have hl : s.lock .ptable = some c := h.lock_of hc (by simp [hp])
  have hcpu := h.sched_in c p (cur_eq_proc.mp hcur)
  rw [switchOut_eq hc]
  refine h.act hlt hcur (lock_alone hl) rfl rfl (fun c' hcc => upd_ne hcc)
    (fun t' ht => by rw [withPhase_ne ht]) (fun _ _ _ _ => rfl) (fun q hq => ?_) (fun _ _ => hl)
    (fun hn ho => ?_) fun q hq => ?_
  · change upd s.on c none c = some q at hq
    rw [upd_same] at hq
    cases hq
  · rw [withPhase_same] at hn ho
    rcases hph with rfl | rfl
    exacts [absurd rfl ho, absurd rfl hn]
  · rw [withPhase_ne (by simp), hcpu] at hq
    cases hq

/-- A runnable process is on no CPU while a scheduler holds the lock. -/
lemma Cpus.runnable_off (h : Cpus s mode) (hc : s.cpu (.cpu c) = some c)
    (hp : (mode (.cpu c)).phase ≠ .normal) (hi : (s.proc i).state = .runnable) (c' : Nat) :
    s.on c' ≠ some i := fun hon => by
  have hl := h.lock_of hc hp
  by_cases hlv : (mode (.proc i)).phase = .leaving
  · have := h.held_eq hl (t := .proc i) (by simp [hlv]) (by simp [hlv])
    rw [(cpu_some hc).2] at this
    cases this
  · rw [(h.on_state c' i hon).1 hlv] at hi
    cases hi

/-- The scheduler chooses a process. -/
lemma Cpus.pick (h : Cpus s mode) (hc : s.cpu (.cpu c) = some c)
    (hp : (mode (.cpu c)).phase = .locked ∨ (mode (.cpu c)).phase = .out) (hi : i < s.nproc)
    (hr : (s.proc i).state = .runnable) :
    Cpus (s.setProc i fun q => { q with state := .running })
      (withPhase mode (.cpu c) (.picked i)) := by
  obtain ⟨hlt, hcur⟩ := cpu_some hc
  have hp' : (mode (.cpu c)).phase ≠ .normal := by rcases hp with hp | hp <;> simp [hp]
  have hl := h.lock_of hc hp'
  have hoff := h.runnable_off hc hp' hr
  refine h.stay hlt hcur (lock_alone hl) rfl rfl rfl (fun t' ht => by rw [withPhase_ne ht])
    (fun q _ hq => setProc_ne ?_) (fun q hq _ => nomatch hq) (fun _ => hl) fun q hq => ?_
  · rintro rfl
    obtain ⟨c', hq⟩ := hq
    exact hoff c' hq
  · rw [withPhase_same] at hq
    obtain rfl := Phase.picked.inj hq
    exact ⟨by rw [setProc_same], hi, hoff⟩

/-- `swtch` to the process that was chosen. -/
lemma Cpus.switchIn (h : Cpus s mode) (hc : s.cpu (.cpu c) = some c)
    (hp : (mode (.cpu c)).phase = .picked i) :
    Cpus { s with on := upd s.on c (some i) } (withPhase mode (.cpu c) .out) := by
  obtain ⟨hlt, hcur⟩ := cpu_some hc
  have hl := h.lock_of hc (by simp [hp])
  obtain ⟨hrun, hi, hoff⟩ := h.picked c i hp
  refine h.act hlt hcur (lock_alone hl) rfl rfl (fun c' hcc => upd_ne hcc)
    (fun t' ht => by rw [withPhase_ne ht]) (fun _ _ _ _ => rfl) (fun q hq => ?_) (fun _ _ => hl)
    (fun _ ho => absurd withPhase_same ho) fun q hq => ?_
  · change upd s.on c (some i) c = some q at hq
    rw [upd_same] at hq
    obtain rfl := Option.some.inj hq
    refine ⟨hi, fun c' _ => hoff c', ⟨fun _ => hrun, ?_, ?_⟩, fun _ => hl, withPhase_same⟩ <;>
      (change (s.proc i).state ≠ _; rw [hrun]; simp)
  · rw [withPhase_same] at hq
    cases hq

/-- `forkret` releases the lock that came with the first switch to the process. -/
lemma Cpus.forkret (h : Cpus s mode) (hc : s.cpu (.proc p) = some c)
    (hf : (s.proc p).forkret = true) (hp : (mode (.proc p)).phase = .normal) :
    Cpus ((s.drop (.proc p) .ptable).setProc p fun q => { q with forkret := false }) mode := by
  obtain ⟨hlt, hcur⟩ := cpu_some hc
  have hon := cur_eq_proc.mp hcur
  refine h.stay hlt hcur (lock_alone (h.resumed c p hon (.inr hf))) rfl rfl rfl (fun _ _ => rfl)
    (fun q hq _ => setProc_ne fun e => hq (e ▸ rfl)) (fun q hq _ => ?_) (fun hn => absurd hp hn)
    fun q hq => ?_
  · obtain rfl := Tid.proc.inj hq
    rw [setProc_same, hp]
    refine ⟨hp ▸ h.on_state c q hon, fun hr => ?_⟩
    rcases hr with hr | hr <;> cases hr
  · rw [hp] at hq
    cases hq

end Cpus

/-! ### The table -/

section Table

variable {s s' : Machine X} {mode mode' : Tid → Mode} {i np p z : Nat} {f : Pcb → Pcb}

lemma Alive.ne_unused (h : Alive s p) : (s.proc p).state ≠ .unused := by
  rcases h with h | h | h <;> simp [h]

lemma Alive.ne_embryo (h : Alive s p) : (s.proc p).state ≠ .embryo := by
  rcases h with h | h | h <;> simp [h]

/-- Actions that change no parent, and no state but that of processes that stay alive. -/
lemma Table.congr (h : Table s mode) (hnproc : s'.nproc = s.nproc)
    (hparent : ∀ p, (s'.proc p).parent = (s.proc p).parent)
    (hunused : ∀ p, (s'.proc p).state = .unused ↔ (s.proc p).state = .unused)
    (hembryo : ∀ p, (s'.proc p).state = .embryo ↔ (s.proc p).state = .embryo)
    (halive : ∀ p, Alive s p → Alive s' p)
    (hchild : ∀ p, (mode' (.proc p)).child = (mode (.proc p)).child)
    (horphan : ∀ p, (mode' (.proc p)).phase = .orphaned → (mode (.proc p)).phase = .orphaned) :
    Table s' mode' := by
  refine ⟨fun p hp => ?_, halive _ h.init, fun p q hq => ?_, fun p h1 h2 h3 => ?_,
    fun p hp => ⟨(h.orphaned p (horphan p hp)).1, fun z => ?_⟩, fun p np b hc => ?_,
    fun p q np b b' h1 h2 => ?_⟩
  · rw [hnproc] at hp
    exact (hunused p).mpr (h.bound p hp)
  · rw [hparent] at hq
    obtain ⟨h1, h2⟩ := h.parent p q hq
    exact ⟨mt (hunused p).mp h1, halive q h2⟩
  · rw [hparent]
    exact h.has_parent p (mt (hunused p).mpr h1) (mt (hembryo p).mpr h2) h3
  · rw [hparent]
    exact (h.orphaned p (horphan p hp)).2 z
  · rw [hchild] at hc
    rw [hparent, hembryo]
    exact h.child p np b hc
  · rw [hchild] at h1 h2
    exact h.child_inj p q np b b' h1 h2

/-- An action of a process on its own entry, or on the entry of one that is not alive. -/
lemma Table.setProc (h : Table s mode) (hparent : (f (s.proc p)).parent = (s.proc p).parent)
    (hstate : (f (s.proc p)).state = (s.proc p).state ∨ (Alive s p ∧
      ((f (s.proc p)).state = .sleeping ∨ (f (s.proc p)).state = .runnable ∨
        (f (s.proc p)).state = .running)))
    (hchild : ∀ p, (mode' (.proc p)).child = (mode (.proc p)).child)
    (horphan : ∀ p, (mode' (.proc p)).phase = .orphaned → (mode (.proc p)).phase = .orphaned) :
    Table (s.setProc p f) mode' := by
  have hall : ∀ q, (((s.setProc p f).proc q).state = (s.proc q).state ∨
      (Alive s q ∧ Alive (s.setProc p f) q)) ∧
      ((s.setProc p f).proc q).parent = (s.proc q).parent := fun q => by
    by_cases hq : q = p
    · subst hq
      refine ⟨?_, ?_⟩ <;> simp only [Alive, setProc_same, hparent]
      exact hstate
    · rw [setProc_ne hq]
      exact ⟨.inl rfl, rfl⟩
  refine h.congr rfl (fun q => (hall q).2) (fun q => ?_) (fun q => ?_) (fun q hq => ?_) hchild
    horphan
  · rcases (hall q).1 with he | ⟨h1, h2⟩
    · rw [he]
    · exact iff_of_false h2.ne_unused h1.ne_unused
  · rcases (hall q).1 with he | ⟨h1, h2⟩
    · rw [he]
    · exact iff_of_false h2.ne_embryo h1.ne_embryo
  · rcases (hall q).1 with he | ⟨-, h2⟩
    · unfold Alive at hq ⊢
      rwa [he]
    · exact h2

lemma Table.lt (h : Table s mode) (hz : (s.proc z).state ≠ .unused) : z < s.nproc :=
  Nat.lt_of_not_le fun hle => hz (h.bound z hle)

lemma Table.not_parent (h : Table s mode) (hz : ¬Alive s z) (q : Nat) :
    (s.proc q).parent ≠ some z :=
  fun hq => hz (h.parent q z hq).2

/-- Only the entry `z` changes, which is nobody's parent, and a process `p` may begin or end to make
a new process of it. -/
lemma Table.entry (h : Table s mode) (hnproc : s'.nproc = s.nproc)
    (hne : ∀ q, q ≠ z → s'.proc q = s.proc q) (hz : z < s.nproc) (hinit : z ≠ initproc)
    (hkids : ∀ q, (s.proc q).parent ≠ some z)
    (hparent : ∀ r, (s'.proc z).parent = some r → (s'.proc z).state ≠ .unused ∧ Alive s r ∧ r ≠ z)
    (hhas : (s'.proc z).state ≠ .unused → (s'.proc z).state ≠ .embryo →
      ∃ r, (s'.proc z).parent = some r)
    (horphan : ∀ q, (mode' (.proc q)).phase = .orphaned → (mode (.proc q)).phase = .orphaned ∧
      (s'.proc z).parent ≠ some q)
    (hchild : ∀ q np b, (mode' (.proc q)).child = some (np, b) →
      (np ≠ z ∧ (mode (.proc q)).child = some (np, b)) ∨ (np = z ∧ q = p ∧
        (s'.proc z).state = .embryo ∧ (s'.proc z).parent = if b then some p else none)) :
    Table s' mode' := by
  have halive : ∀ q, q ≠ z → Alive s q → Alive s' q := fun q hq ha => by
    unfold Alive at ha ⊢
    rwa [hne q hq]
  refine ⟨fun q hq => ?_, halive _ hinit.symm h.init, fun q r hr => ?_, fun q h1 h2 h3 => ?_,
    fun q hq => ⟨(h.orphaned q (horphan q hq).1).1, fun y => ?_⟩, fun q np b hc => ?_,
    fun q q' np b b' h1 h2 => ?_⟩
  · rw [hnproc] at hq
    rw [hne q (by omega)]
    exact h.bound q hq
  · by_cases hqz : q = z
    · subst hqz
      obtain ⟨h1, h2, h3⟩ := hparent r hr
      exact ⟨h1, halive r h3 h2⟩
    · rw [hne q hqz] at hr ⊢
      obtain ⟨h1, h2⟩ := h.parent q r hr
      exact ⟨h1, halive r (fun e => hkids q (e ▸ hr)) h2⟩
  · by_cases hqz : q = z
    · subst hqz
      exact hhas h1 h2
    · rw [hne q hqz] at h1 h2 ⊢
      exact h.has_parent q h1 h2 h3
  · by_cases hyz : y = z
    · rw [hyz]
      exact (horphan q hq).2
    · rw [hne y hyz]
      exact (h.orphaned q (horphan q hq).1).2 y
  · rcases hchild q np b hc with ⟨hn, hc⟩ | ⟨rfl, rfl, h1, h2⟩
    · rw [hne np hn]
      exact h.child q np b hc
    · exact ⟨h1, h2⟩
  · rcases hchild q np b h1 with ⟨hn, h1⟩ | ⟨hn, rfl, -⟩
    · rcases hchild q' np b' h2 with ⟨-, h2⟩ | ⟨hn', -⟩
      exacts [h.child_inj q q' np b b' h1 h2, absurd hn' hn]
    · rcases hchild q' np b' h2 with ⟨hn', -⟩ | ⟨-, rfl, -⟩
      exacts [absurd hn hn', rfl]

/-- A process takes an entry that is free. -/
lemma Table.alloc (h : Table s mode) (hi : (s.proc i).state = .unused) (hlt : i < s.nproc)
    (ph : Phase) (hph : ph ≠ .orphaned) :
    Table (s.alloc i) (Function.update mode (.proc p) ⟨ph, some (i, false)⟩) := by
  have hdead : ¬Alive s i := fun ha => ha.ne_unused hi
  have hpar : (s.proc i).parent = none := by
    cases he : (s.proc i).parent with
    | none => rfl
    | some q => exact absurd hi (h.parent i q he).1
  unfold Machine.alloc
  rw [if_pos hi]
  have hsame : ∀ s' : Machine X, s'.proc = (s.setProc i fun q => { q with
      state := .embryo, pid := s.nextpid, retime := 0, rutime := 0, stime := 0 }).proc →
      (s'.proc i).state = .embryo ∧ (s'.proc i).parent = none := fun s' hs' => by
    rw [hs', setProc_same]
    exact ⟨rfl, hpar⟩
  refine h.entry (z := i) (p := p) rfl (fun q hq => upd_ne hq) hlt
    (fun e => hdead (e ▸ h.init)) (h.not_parent hdead) (fun r hr => ?_)
    (fun _ h2 => absurd (hsame _ rfl).1 h2) (fun q hq => ⟨?_, by rw [(hsame _ rfl).2]; simp⟩)
      fun q np b hc => ?_
  · rw [(hsame _ rfl).2] at hr
    cases hr
  · by_cases hqp : q = p
    · rw [hqp, Function.update_self] at hq
      exact absurd hq hph
    · rwa [Function.update_of_ne (by simpa using hqp)] at hq
  · by_cases hqp : q = p
    · rw [hqp, Function.update_self] at hc
      obtain ⟨rfl, rfl⟩ := Prod.mk.inj (Option.some.inj hc)
      exact .inr ⟨rfl, hqp, hsame _ rfl⟩
    · rw [Function.update_of_ne (by simpa using hqp)] at hc
      refine .inl ⟨fun e => ?_, hc⟩
      have := (h.child q np b hc).1
      rw [e, hi] at this
      cases this

/-- What a process does to the entry of its new process: it gives the entry back, becomes its
parent, or lets it run. -/
lemma Table.setChild {b : Bool} {m' : Mode} (h : Table s mode)
    (hc : (mode (.proc p)).child = some (np, b)) (hp : Alive s p) (ho : m'.phase ≠ .orphaned)
    (hcases : ((f (s.proc np)).state = .unused ∧ (f (s.proc np)).parent = none ∧ b = false ∧
        m'.child = none) ∨
      ((f (s.proc np)).state = .embryo ∧ ∃ b', m'.child = some (np, b') ∧
        (f (s.proc np)).parent = if b' then some p else none) ∨
      ((f (s.proc np)).state = .runnable ∧ (f (s.proc np)).parent = some p ∧ m'.child = none)) :
    Table (s.setProc np f) (Function.update mode (.proc p) m') := by
  have hemb := (h.child p np b hc).1
  have hdead : ¬Alive s np := fun ha => ha.ne_embryo hemb
  have hused : ∀ r, (f (s.proc np)).parent = some r → (f (s.proc np)).state ≠ .unused ∧ r = p := by
    intro r hr
    rcases hcases with ⟨-, h1, -⟩ | ⟨h0, b', -, h1⟩ | ⟨h0, h1, -⟩ <;> rw [h1] at hr
    · cases hr
    · cases b' with
      | true => exact ⟨by simp [h0], (Option.some.inj hr).symm⟩
      | false => cases hr
    · exact ⟨by simp [h0], (Option.some.inj hr).symm⟩
  refine h.entry (z := np) (p := p) rfl (fun q hq => setProc_ne hq) (h.lt (by simp [hemb]))
    (fun e => hdead (e ▸ h.init)) (h.not_parent hdead) (fun r hr => ?_) (fun h1 h2 => ?_)
    (fun q hq => ?_) fun q np' b' hq => ?_ <;> rw [setProc_same] at *
  · obtain ⟨h1, rfl⟩ := hused r hr
    exact ⟨h1, hp, fun e => hdead (e ▸ hp)⟩
  · rcases hcases with ⟨h4, -⟩ | ⟨h4, -⟩ | ⟨-, h4, -⟩
    exacts [absurd h4 h1, absurd h4 h2, ⟨p, h4⟩]
  · have hqp : q ≠ p := by
      rintro rfl
      rw [Function.update_self] at hq
      exact ho hq
    rw [Function.update_of_ne (by simpa using hqp)] at hq
    exact ⟨hq, fun hr => hqp (hused q hr).2⟩
  · by_cases hqp : q = p
    · rw [hqp, Function.update_self] at hq
      rcases hcases with ⟨-, -, -, h4⟩ | ⟨h4, b'', h5, h6⟩ | ⟨-, -, h4⟩
      · rw [h4] at hq
        cases hq
      · rw [h5] at hq
        obtain ⟨rfl, rfl⟩ := Prod.mk.inj (Option.some.inj hq)
        exact .inr ⟨rfl, hqp, h4, h6⟩
      · rw [h4] at hq
        cases hq
    · rw [Function.update_of_ne (by simpa using hqp)] at hq
      exact .inl ⟨fun e => hqp (h.child_inj q p np b' b (e ▸ hq) hc), hq⟩

/-- A change of phase, other than to have passed the children to init. -/
lemma Table.setPhase {t : Tid} {ph : Phase} (h : Table s mode) (hph : ph ≠ .orphaned) :
    Table s (withPhase mode t ph) :=
  h.congr rfl (fun _ => rfl) (fun _ => Iff.rfl) (fun _ => Iff.rfl) (fun _ hp => hp)
    (fun _ => withPhase_child) fun q hq => by
      by_cases ht : Tid.proc q = t
      · rw [ht, withPhase_same] at hq
        exact absurd hq hph
      · rwa [withPhase_ne ht] at hq

/-- `wakeup1` makes processes runnable that were asleep. -/
lemma wakeup1_proc (s : Machine X) (chan : Chan) (q : Nat) :
    Touched (s.proc q) ((s.wakeup1 chan).proc q) ∧
    ((s.wakeup1 chan).proc q).killed = (s.proc q).killed ∧
    ((s.wakeup1 chan).proc q).parent = (s.proc q).parent := by
  unfold Machine.wakeup1
  dsimp only
  split
  next h => exact ⟨⟨rfl, rfl, rfl, rfl, .inr ⟨h.1, rfl⟩⟩, rfl, rfl⟩
  next => exact ⟨.refl _, rfl, rfl⟩

lemma Wakes.unused_iff {a b : Pcb} (h : Wakes a b) : b.state = .unused ↔ a.state = .unused := by
  rcases h with he | ⟨h1, h2⟩
  · rw [he]
  · simp [h1, h2]

lemma Wakes.embryo_iff {a b : Pcb} (h : Wakes a b) : b.state = .embryo ↔ a.state = .embryo := by
  rcases h with he | ⟨h1, h2⟩
  · rw [he]
  · simp [h1, h2]

lemma Wakes.alive (h : Wakes (s.proc q) (s'.proc q)) (hq : Alive s q) : Alive s' q := by
  rcases h with he | ⟨-, h2⟩
  · unfold Alive at hq ⊢
    rwa [he]
  · exact .inr (.inl h2)

/-- An action that only wakes processes up, or changes what this development does not speak of. -/
lemma Table.wake (h : Table s mode) (hnproc : s'.nproc = s.nproc)
    (hproc : ∀ q, (s'.proc q).parent = (s.proc q).parent ∧ Wakes (s.proc q) (s'.proc q)) :
    Table s' mode :=
  h.congr hnproc (fun q => (hproc q).1) (fun q => (hproc q).2.unused_iff)
    (fun q => (hproc q).2.embryo_iff) (fun q => (hproc q).2.alive) (fun _ => rfl) fun _ hq => hq

/-- What the loop of `exit` does to an entry. -/
lemma abandon_proc (s : Machine X) (p q : Nat) :
    Touched (s.proc q) ((s.abandon p).proc q) ∧
    ((s.abandon p).proc q).killed = (s.proc q).killed ∧
    ((s.abandon p).proc q).parent = (if (s.proc q).parent = some p then some initproc
      else (s.proc q).parent) := by
  obtain ⟨s', hs'⟩ : ∃ s' : Machine X, s' = { s with
    proc := fun z =>
      if (s.proc z).parent = some p then { s.proc z with parent := some initproc }
      else s.proc z } := ⟨_, rfl⟩
  have hq : s'.proc q = { s.proc q with
      parent := if (s.proc q).parent = some p then some initproc else (s.proc q).parent } := by
    rw [hs']
    dsimp only
    split <;> rfl
  have he : s.abandon p = s' ∨ s.abandon p = s'.wakeup1 (.proc initproc) := by
    unfold Machine.abandon
    rw [← hs']
    dsimp only
    split
    exacts [.inr rfl, .inl rfl]
  rcases he with he | he <;> rw [he]
  · rw [hq]
    exact ⟨⟨rfl, rfl, rfl, rfl, .inl rfl⟩, rfl, rfl⟩
  · obtain ⟨⟨h1, h2, h3, h4, h5⟩, h6, h7⟩ := wakeup1_proc s' (.proc initproc) q
    rw [hq] at h1 h2 h3 h4 h5 h6 h7
    exact ⟨⟨h1, h2, h3, h4, h5⟩, h6, h7⟩

lemma abandon_fields (s : Machine X) (p : Nat) :
    (s.abandon p).nproc = s.nproc ∧ (s.abandon p).ncpu = s.ncpu ∧
    (s.abandon p).nextpid = s.nextpid ∧ (s.abandon p).on = s.on ∧ (s.abandon p).lock = s.lock ∧
    (s.abandon p).log = s.log ∧ (s.abandon p).data = s.data := by
  unfold Machine.abandon
  dsimp only
  split <;> exact ⟨rfl, rfl, rfl, rfl, rfl, rfl, rfl⟩

/-- A process passes its children to init. -/
lemma Table.abandon (h : Table s mode) (hm : (mode (.proc p)).child = none)
    (hp : p ≠ initproc) : Table (s.abandon p) (withPhase mode (.proc p) .orphaned) := by
  have hnproc := (abandon_fields s p).1
  have hpar := fun q => (abandon_proc s p q).2.2
  have hst := fun q => (abandon_proc s p q).1.state
  refine ⟨fun q hq => ?_, (hst _).alive h.init, fun q r hr => ?_, fun q h1 h2 h3 => ?_,
    fun q hq => ?_,
    fun q np b hc => ?_, fun q q' np b b' h1 h2 => ?_⟩
  · rw [hnproc] at hq
    exact (hst q).unused_iff.mpr (h.bound q hq)
  · rw [hpar] at hr
    split at hr
    next hqp =>
      rw [← Option.some.inj hr]
      exact ⟨mt (hst q).unused_iff.mp (h.parent q p hqp).1, (hst _).alive h.init⟩
    next => exact ⟨mt (hst q).unused_iff.mp (h.parent q r hr).1, (hst r).alive (h.parent q r hr).2⟩
  · rw [hpar]
    split
    next => exact ⟨initproc, rfl⟩
    next => exact h.has_parent q (mt (hst q).unused_iff.mpr h1) (mt (hst q).embryo_iff.mpr h2) h3
  · have hq' : q ≠ initproc ∧ ∀ z, (s.proc z).parent ≠ some p → (s.proc z).parent ≠ some q := by
      by_cases hqp : q = p
      · rw [hqp]
        exact ⟨hp, fun z hz => hz⟩
      · rw [withPhase_ne (by simpa using hqp)] at hq
        exact ⟨(h.orphaned q hq).1, fun z _ => (h.orphaned q hq).2 z⟩
    refine ⟨hq'.1, fun z => ?_⟩
    rw [hpar]
    split
    next => exact fun e => hq'.1 (Option.some.inj e).symm
    next hz => exact hq'.2 z hz
  · rw [withPhase_child] at hc
    have hqp : q ≠ p := by
      rintro rfl
      rw [hm] at hc
      cases hc
    obtain ⟨h1, h2⟩ := h.child q np b hc
    refine ⟨(hst np).embryo_iff.mpr h1, ?_⟩
    rw [hpar, if_neg, h2]
    rw [h2]
    cases b with
    | true => simpa using hqp
    | false => simp
  · rw [withPhase_child] at h1 h2
    exact h.child_inj q q' np b b' h1 h2

/-- A process that has passed its children to init becomes a zombie. -/
lemma Table.exit (h : Table s mode) (ho : (mode (.proc p)).phase = .orphaned) (hp : Alive s p) :
    Table (s.setProc p fun q => { q with state := .zombie })
      (withPhase mode (.proc p) .leaving) := by
  obtain ⟨hinit, hkids⟩ := h.orphaned p ho
  refine h.entry (z := p) (p := p) rfl (fun q hq => setProc_ne hq) (h.lt hp.ne_unused) hinit hkids
    (fun r hr => ?_) (fun _ _ => ?_) (fun q hq => ?_) fun q np b hc => .inl ?_
  · rw [setProc_same] at hr ⊢
    exact ⟨by simp, (h.parent p r hr).2, fun e => hkids p (e ▸ hr)⟩
  · rw [setProc_same]
    exact h.has_parent p hp.ne_unused hp.ne_embryo hinit
  · have hqp : q ≠ p := by
      rintro rfl
      rw [withPhase_same] at hq
      cases hq
    rw [withPhase_ne (by simpa using hqp)] at hq
    rw [setProc_same]
    exact ⟨hq, (h.orphaned q hq).2 p⟩
  · rw [withPhase_child] at hc
    exact ⟨fun e => hp.ne_embryo (e ▸ (h.child q np b hc).1), hc⟩

/-- `wait` frees the entry of a zombie. -/
lemma Table.reap {clear : Pcb → Pcb} (h : Table s mode) (hz : (s.proc z).state = .zombie)
    (hclear : (clear (s.proc z)).state = .unused ∧ (clear (s.proc z)).parent = none) :
    Table { s.setProc z clear with log := .waited p (s.proc z).pid :: s.log } mode := by
  have hdead : ¬Alive s z := by
    rintro (h1 | h1 | h1) <;> rw [hz] at h1 <;> cases h1
  have hzz : (s.setProc z clear).proc z = clear (s.proc z) := setProc_same
  refine h.entry (z := z) (p := p) rfl (fun q hq => setProc_ne hq) (h.lt (by simp [hz]))
    (fun e => hdead (e ▸ h.init)) (h.not_parent hdead) (fun r hr => ?_) (fun h1 _ => ?_)
    (fun q hq => ⟨hq, ?_⟩) fun q np b hc => .inl ⟨fun e => ?_, hc⟩
  · change ((s.setProc z clear).proc z).parent = _ at hr
    rw [hzz, hclear.2] at hr
    cases hr
  · change ((s.setProc z clear).proc z).state ≠ _ at h1
    rw [hzz] at h1
    exact absurd hclear.1 h1
  · change ((s.setProc z clear).proc z).parent ≠ _
    rw [hzz, hclear.2]
    simp
  · have := (h.child q np b hc).1
    rw [e, hz] at this
    cases this

end Table

end Xv6.Kernel
