import Xv6.Kernel.Results

/-!
# Runs of the process table

What holds in every state that the calls of processes and the rounds of schedulers reach: processes
run on one CPU at most, pids and parents are as they should be, `wait` returns the pid of each
zombie once, and, under a condition on `kill` and on failures of `fork`, only processes that were
meant are killed. -/

namespace Xv6.Kernel

open Lib Prog List

variable {X : Type} {n ncpu : Nat} {x : X}

/-- After `userinit` no call has been started. -/
def start (n ncpu : Nat) (x : X) : Threads Tid Label (Machine X) Panic :=
  ⟨boot n ncpu x, fun _ => .ret ()⟩

/-- The states that are reached by actions under a condition. -/
abbrev RunUnder (cond : Tid → Label → Machine X → Prop) (n ncpu : Nat) (x : X)
    (c : Threads Tid Label (Machine X) Panic) : Prop :=
  Threads.Run (Calls n) cond (start n ncpu x) c

/-- No condition. -/
def Always (_ : Tid) (_ : Label) (_ : Machine X) : Prop := True

section Runs

variable {cond : Tid → Label → Machine X → Prop} {c c' : Threads Tid Label (Machine X) Panic}

lemma start_safe (hn : 0 < n) :
    (start n ncpu x).Safe (tableOutline n) ⟨.normal, none⟩ :=
  Threads.safe_of_idle (boot_inv hn) fun _ => rfl

/-- The invariants of the CPUs and of the table, in every state reached. -/
lemma RunUnder.inv (hn : 0 < n) (hrun : RunUnder cond n ncpu x c) :
    ∃ mode, (tableOutline n).inv c.state mode := by
  obtain ⟨mode, hJ, -⟩ := (start_safe hn).run hrun safe_calls fun _ _ _ _ => trivial
  exact ⟨mode, hJ⟩

/-- What one more step guarantees. -/
lemma RunUnder.guar (hn : 0 < n) (hrun : RunUnder cond n ncpu x c)
    (hstep : Threads.Step (Calls n) cond c c') :
    c'.state = c.state ∨ ∃ t l, cond t l c.state ∧ Guar l c.state c'.state :=
  (((start_safe hn).run hrun safe_calls fun _ _ _ _ => trivial).step hstep safe_calls
    fun _ _ _ _ => trivial).2

lemma start_results : (start n ncpu x).Safe resultsOutline none :=
  Threads.safe_of_idle (fun _ => rfl) fun _ => rfl

/-- What one more step tells comes in turn. -/
lemma RunUnder.inTurn (hrun : RunUnder cond n ncpu x c)
    (hstep : Threads.Step (Calls n) cond c c') {e : Event}
    (he : c'.state.log = e :: c.state.log) : InTurn c.state.log e := by
  rcases ((start_results.run hrun results_calls fun _ _ _ _ => trivial).step hstep results_calls
    fun _ _ _ _ => trivial).2 with h | ⟨-, -, -, h | ⟨e', h, hturn⟩⟩
  · rw [h] at he
    exact absurd he.symm (cons_ne_self _ _)
  · rw [h] at he
    exact absurd he.symm (cons_ne_self _ _)
  · rw [h] at he
    exact (List.cons.inj he).1 ▸ hturn

end Runs

/-! ### Schedules -/

/-- A part of a schedule: a call of a process or a round of the scheduler of a CPU with its first
actions, or more actions of a thread. -/
inductive Turn
  | call (p : Nat) (code : Call) (k : Nat)
  | round (c k : Nat)
  | more (t : Tid) (k : Nat)

def Turn.moves (n : Nat) : Turn → List (Threads.Move Tid Label (Machine Unit) Panic)
  | .call p code k => [.start (.proc p) (code.code n p), .acts (.proc p) k]
  | .round c k => [.start (.cpu c) (scheduler c n), .acts (.cpu c) k]
  | .more t k => [.acts t k]

/-- Calls are those of processes that have an entry. -/
def Turn.ok (n : Nat) : Turn → Bool
  | .call p _ _ => decide (p < n)
  | _ => true

/-- What a schedule leads to. -/
def follow (ok : Tid → Label → Machine Unit → Bool) (n ncpu : Nat) (ts : List Turn) :
    Option (Threads Tid Label (Machine Unit) Panic) :=
  Threads.exec ok (ts.flatMap (Turn.moves n)) (start n ncpu ())

lemma follow_run {cond : Tid → Label → Machine Unit → Prop} {ok : Tid → Label → Machine Unit → Bool}
    {ts : List Turn} {c : Threads Tid Label (Machine Unit) Panic}
    (h : follow ok n ncpu ts = some c) (hok : ∀ t l s, ok t l s = true → cond t l s)
    (hts : ts.all (Turn.ok n) = true) : RunUnder cond n ncpu () c := by
  refine Threads.exec_run h hok fun t q hq => ?_
  obtain ⟨turn, hturn, hq⟩ := mem_flatMap.mp hq
  cases turn with
  | call p code k =>
    rcases mem_cons.mp hq with hq | hq
    · obtain ⟨rfl, rfl⟩ := Threads.Move.start.inj hq
      exact .proc p (of_decide_eq_true (all_eq_true.mp hts _ hturn)) code
    · cases mem_singleton.mp hq
  | round c k =>
    rcases mem_cons.mp hq with hq | hq
    · obtain ⟨rfl, rfl⟩ := Threads.Move.start.inj hq
      exact .cpu c
    · cases mem_singleton.mp hq
  | more t k => cases mem_singleton.mp hq

/-- Init runs on the first CPU and makes a process, which the second CPU switches to. -/
def forked : List Turn :=
  [.round 0 4, .call 0 .forkret 1, .call 0 (.fork ⟨true, true, fun _ => 0⟩) 10, .round 1 5]

/-- The new process exits, and its CPU goes back to the scheduler and releases the lock. -/
def exited : List Turn := forked ++ [.call 1 .forkret 1, .call 1 .exit 7, .more (.cpu 1) 1]

/-! ### CPUs -/

/-- A process runs on one CPU at most. -/
theorem process_on_one_cpu (hn : 0 < n) {c c' : Threads Tid Label (Machine X) Panic}
    (hrun : RunUnder Always n ncpu x c) (hstep : Threads.Step (Calls n) Always c c') :
    (∀ k k' p, c.state.on k = some p → c.state.on k' = some p → k = k') ∧
    (c.state.lock .ptable = none → ∀ p, ((c.state.proc p).state = .runnable ∨
      (c.state.proc p).state = .sleeping ∨ (c.state.proc p).state = .embryo) →
      ∀ k, c.state.on k ≠ some p) ∧
    ∀ z, (c.state.proc z).kstack = true → (c'.state.proc z).kstack = false →
      ∀ k, c.state.on k ≠ some z := by
  obtain ⟨mode, -, hC, -⟩ := hrun.inv hn
  refine ⟨hC.inj, fun hfree p hp k hon => ?_, fun z h1 h2 => ?_⟩
  · -- a process on a CPU that is not running is about to call `swtch`, with the lock
    have hleave : (mode (.proc p)).phase ≠ .leaving := fun hl => by
      obtain ⟨d, -, -, hd⟩ := hC.held (.proc p) (by simp [hl]) (by simp [hl])
      rw [hfree] at hd
      cases hd
    rw [(hC.on_state k p hon).1 hleave] at hp
    rcases hp with hp | hp | hp <;> cases hp
  · rcases hrun.guar hn hstep with he | ⟨_, l, -, hG⟩
    · rw [he, h1] at h2
      cases h2
    · exact (hG.entry z).stack h1 h2

/-- Two processes on two CPUs. Later the first one waits for the other, whose stack is freed. -/
theorem process_on_one_cpu_forked :
    (∃ c, RunUnder Always 2 2 () c ∧ c.state.on 0 = some 0 ∧ c.state.on 1 = some 1 ∧
      ∀ k, c.state.on k = some 1 → k = 1) ∧
    ∃ c c', RunUnder Always 2 2 () c ∧ Threads.Step (Calls 2) Always c c' ∧
      (c.state.proc 1).kstack = true ∧ (c'.state.proc 1).kstack = false ∧
      ∀ k, c.state.on k ≠ some 1 := by
  refine ⟨?_, ?_⟩
  · obtain ⟨c, hc, h0, h1, hidle⟩ : ∃ c, follow (fun _ _ _ => true) 2 2 forked = some c ∧
        c.state.on 0 = some 0 ∧ c.state.on 1 = some 1 ∧ c.thread (.proc 0) = .ret () :=
      ⟨_, rfl, rfl, rfl, rfl⟩
    have hrun : RunUnder Always 2 2 () c := follow_run hc (fun _ _ _ _ => trivial) rfl
    exact ⟨c, hrun, h0, h1, fun k hk => (process_on_one_cpu (by decide) hrun
      (.start (.proc 0) hidle (.proc 0 (by decide) .yield))).1 k 1 1 hk h1⟩
  · obtain ⟨c, hc, h1, h2⟩ : ∃ c, follow (fun _ _ _ => true) 2 2 (exited ++ [.call 0 (.wait 1) 2]) =
        some c ∧ (c.state.proc 1).kstack = true ∧ ∃ c',
          Threads.actOf (fun _ _ _ => true) (.proc 0) c =
        some c' ∧ (c'.state.proc 1).kstack = false := ⟨_, rfl, rfl, _, rfl, rfl⟩
    obtain ⟨c', hc', h2⟩ := h2
    have hrun : RunUnder Always 2 2 () c :=
      follow_run hc (fun _ _ _ _ => trivial) rfl
    have hstep : Threads.Step (Calls 2) Always c c' :=
      Threads.actOf_step (fun _ _ _ _ => trivial) hc'
    exact ⟨c, c', hrun, hstep, h1, h2, (process_on_one_cpu (by decide) hrun hstep).2.2 1 h1 h2⟩

/-! ### Pids -/

/-- The pids of the zombies that `wait` and `wait2` have found. -/
def waitedPids (log : List Event) : List Int :=
  log.filterMap fun
    | .waited _ pid => some pid
    | _ => none

/-- The pids that `wait` and `wait2` have returned. -/
def returnedPids (log : List Event) : List Int :=
  log.filterMap fun
    | .waitReturned _ r => if r = -1 then none else some r
    | _ => none

/-- How many processes have been created. -/
def created (log : List Event) : Nat :=
  log.countP fun
    | .created _ _ => true
    | _ => false

/-- The pids of the table. -/
structure Pids (s : Machine X) : Prop where
  next : s.nextpid = created s.log + 1
  pid : ∀ p, (s.proc p).state ≠ .unused → 0 < (s.proc p).pid ∧ (s.proc p).pid < s.nextpid
  pid_inj : ∀ p q, (s.proc p).state ≠ .unused → (s.proc q).state ≠ .unused →
    (s.proc p).pid = (s.proc q).pid → p = q
  waited : ∀ pid ∈ waitedPids s.log, 0 < pid ∧ pid < s.nextpid ∧
    ∀ p, (s.proc p).state ≠ .unused → (s.proc p).pid ≠ pid
  waited_once : (waitedPids s.log).Nodup

section Pids

variable {s s' : Machine X} {l : Label}

lemma created_le (h : s'.log = s.log ∨ ∃ e, s'.log = e :: s.log) :
    created s.log ≤ created s'.log := by
  rcases h with h | ⟨e, h⟩ <;> rw [h]
  unfold created
  rw [countP_cons]
  omega

/-- An action that creates no process. -/
lemma Pids.step_old (h : Pids s) (hG : Guar l s s') (hnext : s'.nextpid = s.nextpid)
    (hnew : ∀ z pid, s'.log ≠ .created z pid :: s.log) : Pids s' := by
  have hold : ∀ z, (s'.proc z).state ≠ .unused →
      (s.proc z).state ≠ .unused ∧ (s'.proc z).pid = (s.proc z).pid := fun z hz => by
    have hz' : (s.proc z).state ≠ .unused := fun hu => hnew _ _ ((hG.entry z).created hu hz)
    exact ⟨hz', (hG.entry z).pid hz' hz⟩
  have hlog : created s'.log = created s.log ∧ (waitedPids s'.log = waitedPids s.log ∨
      ∃ q pid, s'.log = .waited q pid :: s.log ∧ waitedPids s'.log = pid :: waitedPids s.log) := by
    rcases hG.log with he | ⟨e, he⟩
    · rw [he]
      exact ⟨rfl, .inl rfl⟩
    · rw [he]
      cases e with
      | created z pid => exact absurd he (hnew z pid)
      | waited q pid => exact ⟨rfl, .inr ⟨q, pid, rfl, rfl⟩⟩
      | _ => exact ⟨rfl, .inl rfl⟩
  refine ⟨by rw [hnext, hlog.1]; exact h.next, fun p hp => ?_, fun p q hp hq he => ?_, ?_, ?_⟩
  · rw [(hold p hp).2, hnext]
    exact h.pid p (hold p hp).1
  · rw [(hold p hp).2, (hold q hq).2] at he
    exact h.pid_inj p q (hold p hp).1 (hold q hq).1 he
  · have hpast : ∀ pid ∈ waitedPids s.log, 0 < pid ∧ pid < s'.nextpid ∧
        ∀ p, (s'.proc p).state ≠ .unused → (s'.proc p).pid ≠ pid := fun pid hpid => by
      obtain ⟨h1, h2, h3⟩ := h.waited pid hpid
      refine ⟨h1, hnext ▸ h2, fun p hp => ?_⟩
      rw [(hold p hp).2]
      exact h3 p (hold p hp).1
    rcases hlog.2 with he | ⟨q, pid, he, hw⟩
    · rw [he]
      exact hpast
    · -- the process that was waited for had its pid until now, and no other one has it
      obtain ⟨z, -, hz, rfl, hz'⟩ := hG.told _ he
      have hzu : (s.proc z).state ≠ .unused := by simp [hz]
      rw [hw]
      intro pid hpid
      rcases mem_cons.mp hpid with rfl | hpid
      · refine ⟨(h.pid z hzu).1, hnext ▸ (h.pid z hzu).2, fun p hp hpz => ?_⟩
        rw [(hold p hp).2] at hpz
        rw [h.pid_inj p z (hold p hp).1 hzu hpz] at hp
        exact hp hz'
      · exact hpast pid hpid
  · rcases hlog.2 with he | ⟨q, pid, he, hw⟩
    · rw [he]
      exact h.waited_once
    · obtain ⟨z, -, hz, rfl, -⟩ := hG.told _ he
      rw [hw, nodup_cons]
      exact ⟨fun hmem => (h.waited _ hmem).2.2 z (by simp [hz]) rfl, h.waited_once⟩

/-- An action that creates a process. The new pid is larger than those of all processes so far. -/
lemma Pids.step_new {z : Nat} (h : Pids s) (hG : Guar l s s')
    (hnext : s'.nextpid = s.nextpid + 1) (hlog : s'.log = .created z s.nextpid :: s.log) :
    Pids s' := by
  have hw : waitedPids s'.log = waitedPids s.log := by rw [hlog]; rfl
  have hc : created s'.log = created s.log + 1 := by
    rw [hlog]
    exact countP_cons_of_pos rfl
  have hcases : ∀ p, (s'.proc p).state ≠ .unused →
      ((s.proc p).state ≠ .unused ∧ (s'.proc p).pid = (s.proc p).pid) ∨
      ((s.proc p).state = .unused ∧ p = z ∧ (s'.proc p).pid = s.nextpid) := fun p hp => by
    by_cases hu : (s.proc p).state = .unused
    · have he := (hG.entry p).created hu hp
      rw [hlog] at he
      obtain ⟨h1, h2⟩ := Event.created.inj (List.cons.inj he).1
      exact .inr ⟨hu, h1.symm, h2.symm⟩
    · exact .inl ⟨hu, (hG.entry p).pid hu hp⟩
  have hpos : 0 < s.nextpid := by
    rw [h.next]
    omega
  refine ⟨by rw [hnext, h.next, hc]; omega, fun p hp => ?_, fun p q hp hq he => ?_,
    fun pid hpid => ?_, hw ▸ h.waited_once⟩
  · rw [hnext]
    rcases hcases p hp with ⟨hu, hpid⟩ | ⟨-, -, hpid⟩ <;> rw [hpid]
    · have := h.pid p hu
      omega
    · omega
  · rcases hcases p hp with ⟨hup, hpid⟩ | ⟨-, hpz, hpid⟩ <;>
      rcases hcases q hq with ⟨huq, hqid⟩ | ⟨-, hqz, hqid⟩ <;> rw [hpid, hqid] at he
    · exact h.pid_inj p q hup huq he
    · have := (h.pid p hup).2
      omega
    · have := (h.pid q huq).2
      omega
    · rw [hpz, hqz]
  · rw [hw] at hpid
    obtain ⟨h0, h1, h2⟩ := h.waited pid hpid
    refine ⟨h0, by omega, fun p hp => ?_⟩
    rcases hcases p hp with ⟨hu, he⟩ | ⟨-, -, he⟩ <;> rw [he]
    · exact h2 p hu
    · omega

/-- Pids are as they should be while fewer than `2 ^ 31 - 1` processes have been created. -/
lemma Pids.step (h : created s.log < 2 ^ 31 - 1 → Pids s) (hG : Guar l s s')
    (hc : created s'.log < 2 ^ 31 - 1) : Pids s' := by
  have hP := h (lt_of_le_of_lt (created_le hG.log) hc)
  rcases hG.next with ⟨hnext, hnew⟩ | ⟨hnext, z, -, hlog⟩
  · exact hP.step_old hG hnext hnew
  · refine hP.step_new hG ?_ hlog
    rw [hlog, show created (.created z s.nextpid :: s.log) = created s.log + 1 from
      countP_cons_of_pos rfl] at hc
    rw [hnext, BitVec.toInt_ofInt, hP.next]
    exact Int.bmod_eq_of_le (by omega) (by omega)

lemma boot_pids : Pids (boot n ncpu x) := by
  have hused : ∀ p, ((boot n ncpu x).proc p).state ≠ .unused → p = initproc := fun p hp => by
    by_contra hne
    simp [boot, upd_ne hne] at hp
  refine ⟨rfl, fun p hp => ?_, fun p q hp hq _ => (hused p hp).trans (hused q hq).symm,
    fun pid h => absurd h not_mem_nil, nodup_nil⟩
  rw [hused p hp]
  simp [boot]

lemma RunUnder.pids {cond : Tid → Label → Machine X → Prop}
    {c : Threads Tid Label (Machine X) Panic} (hn : 0 < n) (hrun : RunUnder cond n ncpu x c)
    (hc : created c.state.log < 2 ^ 31 - 1) : Pids c.state :=
  (start_safe hn).run_of_guar (P := fun s : Machine X => created s.log < 2 ^ 31 - 1 → Pids s)
    (fun _ => boot_pids) hrun safe_calls (fun _ _ _ _ => trivial)
    (fun _ _ _ _ _ _ hP _ hG => Pids.step hP hG) hc

end Pids

/-! ### Results of `wait` -/

section Returned

variable {log : List Event} {p q : Nat} {pid : Int}

lemma mem_waitedPids : pid ∈ waitedPids log ↔ ∃ p, .waited p pid ∈ log := by
  unfold waitedPids
  rw [mem_filterMap]
  refine ⟨fun ⟨e, he, h⟩ => ?_, fun ⟨p, h⟩ => ⟨_, h, rfl⟩⟩
  split at h
  · exact ⟨_, Option.some.inj h ▸ he⟩
  · cases h

/-- What is left to be returned has been told. -/
lemma mem_of_pending {e : Event} (h : pending p log = some e) : e ∈ log := by
  induction log with
  | nil => cases h
  | cons e' log ih =>
    unfold pending at h
    split at h
    · unfold Event.found at h
      split at h <;> cases h
      exact mem_cons_self
    · exact mem_cons_of_mem _ (ih h)

/-- A zombie is found by one process only. -/
lemma waited_unique (h : (waitedPids log).Nodup) (hp : .waited p pid ∈ log)
    (hq : .waited q pid ∈ log) : p = q := by
  induction log with
  | nil => cases hp
  | cons e log ih =>
    have hsub : (waitedPids log).Sublist (waitedPids (e :: log)) :=
      (sublist_cons_self e log).filterMap _
    rcases mem_cons.mp hp with rfl | hp' <;> rcases mem_cons.mp hq with hq' | hq'
    · exact (Event.waited.inj hq').1.symm
    · exact absurd (mem_waitedPids.mpr ⟨q, hq'⟩) (nodup_cons.mp h).1
    · subst hq'
      exact absurd (mem_waitedPids.mpr ⟨p, hp'⟩) (nodup_cons.mp h).1
    · exact ih (h.sublist hsub) hp' hq'

lemma pending_waited {e : Event} (h : pending p (e :: log) = some (.waited q pid)) :
    e = .waited q pid ∨ pending p log = some (.waited q pid) := by
  unfold pending at h
  split at h
  · unfold Event.found at h
    split at h <;> cases h
    exact .inl rfl
  · exact .inr h

/-- Pids that have been returned are those of zombies that were found, and are not left to be
returned again. -/
structure Returned (log : List Event) : Prop where
  nodup : (returnedPids log).Nodup
  past : ∀ pid ∈ returnedPids log,
    pid ∈ waitedPids log ∧ ∀ p, pending p log ≠ some (.waited p pid)

/-- A pid is returned once, since it is reaped once. -/
lemma Returned.cons {e : Event} (h : Returned log) (he : InTurn log e)
    (hw : (waitedPids (e :: log)).Nodup) : Returned (e :: log) := by
  have hsub : (waitedPids log).Sublist (waitedPids (e :: log)) :=
    (sublist_cons_self e log).filterMap _
  have hold : ∀ pid ∈ returnedPids log, pid ∈ waitedPids (e :: log) ∧
      ∀ p, pending p (e :: log) ≠ some (.waited p pid) := fun pid hpid => by
    refine ⟨hsub.subset (h.past pid hpid).1, fun p hp => ?_⟩
    rcases pending_waited hp with rfl | hp
    · exact (nodup_cons.mp hw).1 (h.past pid hpid).1
    · exact (h.past pid hpid).2 p hp
  by_cases hr : ∃ q r, e = .waitReturned q r ∧ r ≠ -1
  · obtain ⟨q, r, rfl, hr⟩ := hr
    have hq : pending q log = some (.waited q r) := he.resolve_right fun h => hr h.1
    have hlist : returnedPids (.waitReturned q r :: log) = r :: returnedPids log := by
      simp [returnedPids, hr]
    refine ⟨hlist ▸ nodup_cons.mpr ⟨fun hm => (h.past r hm).2 q hq, h.nodup⟩, fun pid hpid => ?_⟩
    rcases mem_cons.mp (hlist ▸ hpid) with rfl | hpid
    · refine ⟨mem_waitedPids.mpr ⟨q, mem_cons_of_mem _ (mem_of_pending hq)⟩, fun p hp => ?_⟩
      -- the zombie was found by `q`, which has nothing left to be returned now
      obtain hp' := (pending_waited hp).resolve_left (by simp)
      have hw' : (waitedPids log).Nodup := hw
      obtain rfl := waited_unique hw' (mem_of_pending hp') (mem_of_pending hq)
      simp [pending, Event.by, Event.found] at hp
    · exact hold pid hpid
  · have hlist : returnedPids (e :: log) = returnedPids log := by
      cases e with
      | waitReturned q r =>
        have h1 : r = -1 := by
          by_contra h1
          exact hr ⟨q, r, rfl, h1⟩
        simp [returnedPids, h1]
      | _ => rfl
    exact ⟨hlist ▸ h.nodup, hlist ▸ hold⟩

lemma RunUnder.returned {cond : Tid → Label → Machine X → Prop}
    {c : Threads Tid Label (Machine X) Panic} (hn : 0 < n) (hrun : RunUnder cond n ncpu x c)
    (hc : created c.state.log < 2 ^ 31 - 1) : Returned c.state.log := by
  induction hrun with
  | refl => exact ⟨nodup_nil, fun pid h => absurd h not_mem_nil⟩
  | tail hr hs ih =>
    have hP := RunUnder.pids hn (hr.tail hs) hc
    have hlog := (RunUnder.guar hn hr hs).elim (fun h => .inl (congrArg Machine.log h))
      fun ⟨_, _, _, hG⟩ => hG.log
    have h := ih (lt_of_le_of_lt (created_le hlog) hc)
    rcases hlog with he | ⟨e, he⟩
    · rwa [he]
    · rw [he]
      exact h.cons (RunUnder.inTurn hr hs he) (he ▸ hP.waited_once)

end Returned

/-- The entries of the table, whenever `ptable.lock` is free. -/
structure WellFormed (s : Machine X) : Prop where
  pid : ∀ p, (s.proc p).state ≠ .unused → 0 < (s.proc p).pid
  pid_inj : ∀ p q, (s.proc p).state ≠ .unused → (s.proc q).state ≠ .unused →
    (s.proc p).pid = (s.proc q).pid → p = q
  /-- Processes have a parent that is not dead. If they are zombies, it finds one of its own. -/
  parent : ∀ p, (s.proc p).state ≠ .unused → (s.proc p).state ≠ .embryo → p ≠ initproc →
    ∃ q, (s.proc p).parent = some q ∧ (s.proc q).state ≠ .unused ∧ (s.proc q).state ≠ .zombie ∧
      ((s.proc p).state = .zombie → (s.zombieChild q).isSome)

/-- What a step tells of `fork`, `wait` and `wait2`. -/
structure CallsRight (s s' : Machine X) : Prop where
  /-- `fork` reads the pid of its child. -/
  forked : ∀ q pid, s'.log = .forked q pid :: s.log → ∃ z, (s.proc z).parent = some q ∧
    (s.proc z).state = .embryo ∧ (s.proc z).pid = pid
  /-- `wait` and `wait2` find a zombie among the children and free its entry. -/
  waited : ∀ q pid, s'.log = .waited q pid :: s.log → ∃ z, (s.proc z).parent = some q ∧
    (s.proc z).state = .zombie ∧ (s.proc z).pid = pid ∧ (s'.proc z).state = .unused
  failed : ∀ q, s'.log = .waitFailed q :: s.log →
    (∀ z, (s.proc z).parent ≠ some q) ∨ (s.proc q).killed = true
  /-- They return what they found. -/
  waitReturned : ∀ q r, s'.log = .waitReturned q r :: s.log →
    0 < r ∧ pending q s.log = some (.waited q r) ∨ r = -1 ∧ pending q s.log = some (.waitFailed q)
  /-- Nothing else is told of the calls of a process between what was found and the return. -/
  inTurn : ∀ e, s'.log = e :: s.log → InTurn s.log e

/-- The process table: its form, what a step does to zombies, and what `fork` and `wait` return. -/
theorem process_table_correct (hn : 0 < n) {c c' : Threads Tid Label (Machine X) Panic}
    (hrun : RunUnder Always n ncpu x c) (hstep : Threads.Step (Calls n) Always c c')
    (hcreated : created c.state.log < 2 ^ 31 - 1) :
    (c.state.lock .ptable = none → WellFormed c.state) ∧
    (∀ z, (c.state.proc z).state = .zombie →
      ((c'.state.proc z).state = .zombie ∧ (c'.state.proc z).pid = (c.state.proc z).pid) ∨
      ∃ q, (c.state.proc z).parent = some q ∧
        c'.state.log = .waited q (c.state.proc z).pid :: c.state.log) ∧
    (waitedPids c.state.log).Nodup ∧ (returnedPids c.state.log).Nodup ∧
    CallsRight c.state c'.state := by
  have hP := hrun.pids hn hcreated
  obtain ⟨mode, -, -, hT⟩ := hrun.inv hn
  obtain ⟨l, htold⟩ : ∃ l, ∀ e, c'.state.log = e :: c.state.log → Told l c.state c'.state e := by
    rcases hrun.guar hn hstep with he | ⟨_, l, -, hG⟩
    · rw [he]
      exact ⟨.tau, fun e h => absurd h.symm (cons_ne_self _ _)⟩
    · exact ⟨l, hG.told⟩
  refine ⟨fun _ => ⟨fun p hp => (hP.pid p hp).1, hP.pid_inj, fun p h1 h2 h3 => ?_⟩, ?_,
    hP.waited_once, (hrun.returned hn hcreated).nodup, fun _ _ => htold _, fun _ _ => htold _,
    fun _ => htold _, fun q r he => ?_, fun e => hrun.inTurn hstep⟩
  · obtain ⟨q, hq⟩ := hT.has_parent p h1 h2 h3
    have halive := (hT.parent p q hq).2
    refine ⟨q, hq, halive.ne_unused, ?_, fun hz => ?_⟩
    · rcases halive with h | h | h <;> simp [h]
    · have hlt : p < c.state.nproc := by
        by_contra hge
        exact h1 (hT.bound p (by omega))
      unfold Machine.zombieChild
      rw [find?_isSome]
      exact ⟨p, mem_range.mpr hlt, by simp [hq, hz]⟩
  · rcases hrun.guar hn hstep with he | ⟨_, l, -, hG⟩
    · rw [he]
      exact fun z hz => .inl ⟨hz, rfl⟩
    · exact fun z => (hG.entry z).zombie
  · rcases hrun.inTurn hstep he with h | h
    · exact .inl ⟨(hP.waited r (mem_waitedPids.mpr ⟨q, mem_of_pending h⟩)).1, h⟩
    · exact .inr h

/-- A child exits and stays in the table until init waits for it and is told its pid. -/
theorem process_table_correct_exited :
    (∃ c, RunUnder Always 2 2 () c ∧ (c.state.proc 1).state = .zombie ∧ WellFormed c.state) ∧
    ∃ c, RunUnder Always 2 2 () c ∧ returnedPids c.state.log = [2] ∧
      (returnedPids c.state.log).Nodup ∧ (c.state.proc 1).state = .unused := by
  refine ⟨?_, ?_⟩
  · obtain ⟨c, hc, h1, h2, h3, hidle⟩ : ∃ c, follow (fun _ _ _ => true) 2 2 exited = some c ∧
        (c.state.proc 1).state = .zombie ∧ c.state.lock .ptable = none ∧ created c.state.log = 2 ∧
        c.thread (.proc 0) = .ret () := ⟨_, rfl, rfl, rfl, rfl, rfl⟩
    have hrun : RunUnder Always 2 2 () c :=
      follow_run hc (fun _ _ _ _ => trivial) rfl
    exact ⟨c, hrun, h1, (process_table_correct (by decide) hrun
      (.start (.proc 0) hidle (.proc 0 (by decide) (.wait 1))) (by omega)).1 h2⟩
  · obtain ⟨c, hc, h1, h2, h3, hidle⟩ : ∃ c,
        follow (fun _ _ _ => true) 2 2 (exited ++ [.call 0 (.wait 1) 5]) = some c ∧
        returnedPids c.state.log = [2] ∧ (c.state.proc 1).state = .unused ∧
        created c.state.log = 2 ∧ c.thread (.proc 0) = .ret () := ⟨_, rfl, rfl, rfl, rfl, rfl⟩
    have hrun : RunUnder Always 2 2 () c :=
      follow_run hc (fun _ _ _ _ => trivial) rfl
    exact ⟨c, hrun, h1, (process_table_correct (by decide) hrun
      (.start (.proc 0) hidle (.proc 0 (by decide) (.wait 1))) (by omega)).2.2.2.1, h2⟩

/-! ### Kill -/

/-- Process `p` has been killed since it was created, with its own pid or by a trap. -/
def KilledSince (s : Machine X) (p : Nat) : Prop :=
  ∃ later e earlier, s.log = later ++ e :: earlier ∧
    ((∃ q, e = .kill q (s.proc p).pid 0) ∨ e = .trapped (s.proc p).pid) ∧
    .created p (s.proc p).pid ∈ earlier ∧ ∀ pid, .created p pid ∉ later

/-- Only processes that were meant are killed. -/
def KilledRight (s : Machine X) : Prop :=
  ∀ p, (s.proc p).state ≠ .unused → (s.proc p).killed = true → KilledSince s p

/-- If `kill` found a process then one with that pid is marked, and no other one. `kill` returns
what it found. -/
def KillRight (s s' : Machine X) : Prop :=
  (∀ q pid, s'.log = .kill q pid 0 :: s.log → ∃ p, (s.proc p).state ≠ .unused ∧
    (s.proc p).pid = pid ∧ ∀ z, (s'.proc z).killed = if z = p then true else (s.proc z).killed) ∧
  ∀ q pid r, s'.log = .killReturned q pid r :: s.log → pending q s.log = some (.kill q pid r)

/-- The first entry with the pid given to `kill` is in use, and `fork` gives back no entry that is
marked. -/
def MarksLive (_ : Tid) (l : Label) (s : Machine X) : Prop :=
  (∀ pid p, l = .kill pid → s.findPid pid = some p → (s.proc p).state ≠ .unused) ∧
  ∀ np, l = .forkFails np → (s.proc np).killed = false

/-- The marks of the table and where they come from. -/
structure Marks (s : Machine X) : Prop where
  unused : ∀ p, (s.proc p).state = .unused → (s.proc p).killed = false
  created : ∀ p, (s.proc p).state ≠ .unused → .created p (s.proc p).pid ∈ s.log
  killed : KilledRight s

section Kill

variable {s s' : Machine X} {t : Tid} {l : Label} {p : Nat}

/-- What was told before stays told: the entry is created anew only if it is free. -/
lemma KilledSince.step (h : KilledSince s p) (hG : Guar l s s') (hp : (s.proc p).state ≠ .unused)
    (hp' : (s'.proc p).state ≠ .unused) : KilledSince s' p := by
  obtain ⟨later, e, earlier, hlog, he, hmem, hnew⟩ := h
  rw [KilledSince, (hG.entry p).pid hp hp']
  rcases hG.log with hl | ⟨e', hl⟩
  · exact ⟨later, e, earlier, hl.trans hlog, he, hmem, hnew⟩
  · refine ⟨e' :: later, e, earlier, by rw [hl, hlog, cons_append], he, hmem,
      fun pid hpid => ?_⟩
    rcases mem_cons.mp hpid with rfl | hpid
    · rcases hG.next with ⟨-, hno⟩ | ⟨-, z, hz, hcr⟩
      · exact hno p pid hl
      · rw [hl] at hcr
        obtain ⟨rfl, -⟩ := Event.created.inj (List.cons.inj hcr).1
        exact hp hz
    · exact hnew pid hpid

lemma Marks.step (h : Marks s) (hc : MarksLive t l s) (hG : Guar l s s') : Marks s' := by
  have hfree : ∀ p, (s.proc p).state = .unused → (s'.proc p).killed = false := fun p hp => by
    by_contra hk
    rcases (hG.entry p).killed (by simpa using hk) with h1 | ⟨pid, rfl, h2⟩ | ⟨h3, -⟩
    · rw [h.unused p hp] at h1
      cases h1
    · exact hc.1 pid p rfl h2 hp
    · exact h3 hp
  refine ⟨fun p hp => ?_, fun p hp => ?_, fun p hp hk => ?_⟩
  · rcases (hG.entry p).freed hp with (h1 | ⟨rfl, h2⟩) | h3
    · exact hfree p h1
    · rw [h2]
      exact hc.2 p rfl
    · exact h3
  · by_cases hu : (s.proc p).state = .unused
    · rw [(hG.entry p).created hu hp]
      exact mem_cons_self
    · rw [(hG.entry p).pid hu hp]
      have := h.created p hu
      rcases hG.log with hl | ⟨e, hl⟩ <;> rw [hl]
      exacts [this, mem_cons_of_mem _ this]
  · by_cases hu : (s.proc p).state = .unused
    · rw [hfree p hu] at hk
      cases hk
    · have hcr := h.created p hu
      rcases (hG.entry p).killed hk with h1 | ⟨pid, rfl, h2⟩ | ⟨-, hl⟩
      · exact (h.killed p hu h1).step hG hu hp
      · obtain ⟨q, hs'⟩ := hG.kill pid rfl
        have hl : s'.log = .kill q (s.proc p).pid 0 :: s.log := by
          rw [hs', kill_log, h2, (findPid_some h2).2]
          rfl
        rw [KilledSince, (hG.entry p).pid hu hp]
        exact ⟨[], _, s.log, hl, .inl ⟨q, rfl⟩, hcr, fun pid h => (nomatch h)⟩
      · rw [KilledSince, (hG.entry p).pid hu hp]
        exact ⟨[], _, s.log, hl, .inr rfl, hcr, fun pid h => (nomatch h)⟩

lemma boot_marks : Marks (boot n ncpu x) := by
  have hk : ∀ p, ((boot n ncpu x).proc p).killed = false := fun p => by
    by_cases hp : p = initproc
    · simp [boot, hp]
    · simp [boot, upd_ne hp]
  refine ⟨fun p _ => hk p, fun p hp => ?_, fun p _ h => ?_⟩
  · have hpi : p = initproc := by
      by_contra hne
      simp [boot, upd_ne hne] at hp
    rw [hpi]
    simp [boot]
  · rw [hk] at h
    cases h

/-- `kill` marks the process it finds. -/
lemma MarksLive.marks {q : Nat} {pid : Int} (hc : MarksLive t l s) (hG : Guar l s s')
    (hlog : s'.log = .kill q pid 0 :: s.log) : ∃ p, (s.proc p).state ≠ .unused ∧
      (s.proc p).pid = pid ∧ ∀ z,
        (s'.proc z).killed = if z = p then true else (s.proc z).killed := by
  obtain rfl : l = .kill pid := hG.told _ hlog
  obtain ⟨q', hs'⟩ := hG.kill pid rfl
  rw [hs', kill_log] at hlog
  obtain ⟨-, -, h0⟩ := Event.kill.inj (List.cons.inj hlog).1
  cases hf : s.findPid pid with
  | none => simp [hf] at h0
  | some p =>
    refine ⟨p, hc.1 pid p rfl hf, (findPid_some hf).2, fun z => ?_⟩
    rw [hs', (kill_proc s q' pid z).2.1, hf]
    by_cases hz : z = p
    · simp [hz]
    · have hne : ¬some p = some z := fun e => hz (Option.some.inj e).symm
      simp [hz, hne]

end Kill

/-- In runs in which `kill` finds entries in use and `fork` gives back no entry that is marked, only
processes that were meant are killed. -/
theorem kill_reaches_live (hn : 0 < n) {c c' : Threads Tid Label (Machine X) Panic}
    (hrun : RunUnder MarksLive n ncpu x c) (hstep : Threads.Step (Calls n) MarksLive c c') :
    KilledRight c.state ∧ KillRight c.state c'.state := by
  have hM : Marks c.state := (start_safe hn).run_of_guar boot_marks hrun safe_calls
    (fun _ _ _ _ => trivial) fun _ _ _ _ _ _ hM hc hG => hM.step hc hG
  refine ⟨hM.killed, fun q pid hlog => ?_, fun q pid r hlog => hrun.inTurn hstep hlog⟩
  rcases hrun.guar hn hstep with he | ⟨t, l, hc, hG⟩
  · rw [he] at hlog
    exact absurd hlog.symm (cons_ne_self _ _)
  · exact hc.marks hG hlog

theorem kill_reaches_live_self : ∃ c, RunUnder MarksLive 64 8 () c ∧
    c.state.log.head? = some (.killReturned initproc 1 0) ∧
    (c.state.proc initproc).killed = true ∧ KilledSince c.state initproc := by
  obtain ⟨c, hc, h0, h1, h2, h3⟩ : ∃ c, follow
      (fun _ l s => match l with
        | .kill pid => (s.findPid pid).all fun p => decide ((s.proc p).state ≠ .unused)
        | .forkFails _ => false
        | _ => true)
      64 8 [.round 0 4, .call 0 .forkret 1, .call 0 (.kill 1) 5] = some c ∧
      c.state.log.head? = some (.killReturned initproc 1 0) ∧
      (c.state.proc initproc).state = .running ∧ (c.state.proc initproc).killed = true ∧
      c.thread (.cpu 1) = .ret () := ⟨_, rfl, rfl, rfl, rfl, rfl⟩
  have hrun : RunUnder MarksLive 64 8 () c := by
    refine follow_run hc (fun t l s h => ⟨?_, ?_⟩) rfl
    · rintro pid p rfl hf
      simpa [hf] using h
    · rintro np rfl
      cases h
  exact ⟨c, hrun, h0, h2, (kill_reaches_live (by decide) hrun (.start (.cpu 1) h3 (.cpu 1))).1 _
    (by rw [h1]; simp) h2⟩

/-- `kill` with pid `0` marks a free entry, and the process that `fork` makes of it is born with the
mark. -/
theorem forked_process_born_killed : ∃ c, RunUnder Always 64 8 () c ∧ ¬KilledRight c.state := by
  obtain ⟨c, hc, hst⟩ : ∃ c, follow (fun _ _ _ => true) 64 8 [.round 0 4, .call 0 .forkret 1,
      .call 0 (.kill 0) 5, .call 0 (.fork ⟨true, true, fun _ => 0⟩) 10] = some c ∧
      ((c.state.proc 1).state, (c.state.proc 1).pid, (c.state.proc 1).killed, c.state.log) =
        (.runnable, 2, true, [.forkReturned 0 2, .forked 0 2, .created 1 2, .killReturned 0 0 0,
          .kill 0 0 0, .created 0 1]) := ⟨_, rfl, rfl⟩
  simp only [Prod.mk.injEq] at hst
  obtain ⟨h1, h2, h3, h4⟩ := hst
  refine ⟨c, follow_run hc (fun _ _ _ _ => trivial) rfl, fun h => ?_⟩
  obtain ⟨later, e, earlier, hlog, he, -⟩ := h 1 (by rw [h1]; simp) h3
  have hmem : e ∈ c.state.log := by rw [hlog]; simp
  rw [h2] at he
  rw [h4] at hmem
  rcases he with ⟨q, rfl⟩ | rfl <;> simp at hmem

end Xv6.Kernel
