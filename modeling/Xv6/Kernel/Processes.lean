import Xv6.Kernel.Table

/-!
# The calls on the process table

Every call keeps the outline of the process table, one lemma for each function of `proc.c`. The
results about runs follow: processes run on one CPU at most, and the table is well formed whenever
`ptable.lock` is free.
-/

namespace Xv6.Kernel

open Lib Prog Function

variable {X : Type} {n : Nat}

/-! ### Guarantees -/

section Guar

variable {s s' : Machine X} {l : Label} {z : Nat} {f : Pcb → Pcb} {e : Event}

/-- An entry that keeps its pid and its mark, and stays free or in use. -/
lemma EntryGuar.quiet (hpid : (s'.proc z).pid = (s.proc z).pid)
    (hkilled : (s'.proc z).killed = (s.proc z).killed)
    (hu : (s'.proc z).state = .unused ↔ (s.proc z).state = .unused)
    (hz : (s.proc z).state = .zombie → (s'.proc z).state = .zombie)
    (hstack : (s.proc z).kstack = true → (s'.proc z).kstack = false → ∀ c, s.on c ≠ some z) :
    EntryGuar l s s' z :=
  ⟨hstack, fun h => .inl ⟨hz h, hpid⟩, fun _ _ => hpid, fun h1 h2 => absurd (hu.mpr h1) h2,
    fun h => .inl (hkilled ▸ h), fun h => .inl (.inl (hu.mp h))⟩

lemma EntryGuar.same (h : s'.proc z = s.proc z) : EntryGuar l s s' z := by
  refine .quiet (by rw [h]) (by rw [h]) (by rw [h]) (fun hz => by rw [h, hz]) fun h1 h2 => ?_
  rw [h, h1] at h2
  cases h2

/-- An entry that stays as it is but for its mark, or is woken up. -/
lemma EntryGuar.woken (h : Touched (s.proc z) (s'.proc z))
    (hkilled : (s'.proc z).killed = true → (s.proc z).killed = true ∨
      (∃ pid, l = .kill pid ∧ s.findPid pid = some z) ∨
      ((s.proc z).state ≠ .unused ∧ s'.log = .trapped (s.proc z).pid :: s.log)) :
    EntryGuar l s s' z := by
  have hu := h.state.unused_iff
  refine ⟨fun h1 h2 => ?_, fun hz => .inl ⟨?_, h.pid⟩, fun _ _ => h.pid,
    fun h1 h2 => absurd (hu.mpr h1) h2, hkilled, fun h => .inl (.inl (hu.mp h))⟩
  · rw [h.kstack, h1] at h2
    cases h2
  · rcases h.state with he | ⟨h1, -⟩
    · rw [he, hz]
    · rw [hz] at h1
      cases h1

/-- An action on entry `z` alone. -/
lemma EntryGuar.of_entry (hother : ∀ y, y ≠ z → s'.proc y = s.proc y)
    (hz : EntryGuar l s s' z) (y : Nat) : EntryGuar l s s' y := by
  by_cases hy : y = z
  · rw [hy]
    exact hz
  · exact .same (hother y hy)

/-- Actions that tell nothing. -/
lemma Guar.silent (hl : ∀ pid, l ≠ .kill pid) (hlog : s'.log = s.log)
    (hnext : s'.nextpid = s.nextpid) (hentry : ∀ z, EntryGuar l s s' z) : Guar l s s' := by
  have hnew : ∀ e, s'.log ≠ e :: s.log := fun e he =>
    List.cons_ne_self _ _ (hlog.symm.trans he).symm
  exact ⟨hentry, .inl hlog, .inl ⟨hnext, fun _ _ => hnew _⟩, fun _ h => absurd h (hnew _),
    fun pid h => absurd h (hl pid)⟩

/-- Actions that tell of something, but of no new process. -/
lemma Guar.tells (hl : ∀ pid, l ≠ .kill pid) (hlog : s'.log = e :: s.log)
    (hnext : s'.nextpid = s.nextpid) (hentry : ∀ z, EntryGuar l s s' z)
    (hcreated : ∀ z pid, e ≠ .created z pid) (htold : Told l s s' e) : Guar l s s' := by
  have hinj : ∀ e', s'.log = e' :: s.log → e = e' := fun e' h =>
    (List.cons.inj (hlog.symm.trans h)).1
  exact ⟨hentry, .inr ⟨e, hlog⟩, .inl ⟨hnext, fun z pid h => hcreated z pid (hinj _ h)⟩,
    fun e' h => hinj e' h ▸ htold, fun pid h => absurd h (hl pid)⟩

/-- Actions that change no entry. -/
lemma Guar.of_proc_eq (hl : ∀ pid, l ≠ .kill pid) (hlog : s'.log = s.log)
    (hnext : s'.nextpid = s.nextpid) (hproc : s'.proc = s.proc) : Guar l s s' :=
  .silent hl hlog hnext fun z => .same (congrFun hproc z)

/-- Actions on one entry that is no zombie and that do not give it back. -/
lemma Guar.of_entry (hl : ∀ pid, l ≠ .kill pid) (hlog : s'.log = s.log)
    (hnext : s'.nextpid = s.nextpid) (hother : ∀ y, y ≠ z → s'.proc y = s.proc y)
    (hz : (s.proc z).state ≠ .zombie)
    (hu : (s'.proc z).state = .unused ↔ (s.proc z).state = .unused)
    (hpid : (s'.proc z).pid = (s.proc z).pid) (hkilled : (s'.proc z).killed = (s.proc z).killed)
    (hstack : (s.proc z).kstack = true → (s'.proc z).kstack = false → ∀ c, s.on c ≠ some z) :
    Guar l s s' :=
  .silent hl hlog hnext (.of_entry hother (.quiet hpid hkilled hu (fun h => absurd h hz) hstack))

lemma Guar.setProc (hl : ∀ pid, l ≠ .kill pid) (hz : (s.proc z).state ≠ .zombie)
    (hu : (f (s.proc z)).state = .unused ↔ (s.proc z).state = .unused)
    (hpid : (f (s.proc z)).pid = (s.proc z).pid)
    (hkilled : (f (s.proc z)).killed = (s.proc z).killed)
    (hstack : (s.proc z).kstack = true → (f (s.proc z)).kstack = false → ∀ c, s.on c ≠ some z) :
    Guar l s (s.setProc z f) := by
  refine .of_entry hl rfl rfl (fun y hy => setProc_ne hy) hz ?_ ?_ ?_ ?_ <;> rw [setProc_same]
  exacts [hu, hpid, hkilled, hstack]

end Guar

/-! ### Reading and storing -/

/-- The code of thread `t` keeps the outline of the table, and takes the thread from mode `m` to
mode `m'`. -/
abbrev Passes (X : Type) (n : Nat) {α : Type} (t : Tid) (m m' : Mode) (q : Code X α) : Prop :=
  q.safe (tableOutline n) t m fun _ m'' => m'' = m'

section Actions

variable {t : Tid} {m m' : Mode} {ph ph' : Phase} {ch : Option (Nat × Bool)} {α : Type}

lemma withPhase_eq {mode : Tid → Mode} (hm : mode t = ⟨ph, ch⟩) (ph' : Phase) :
    withPhase mode t ph' = update mode t ⟨ph', ch⟩ := by
  simp [withPhase, hm]

lemma safe_look {f : Machine X → α} {Q : α → Mode → Prop}
    (h : ∀ s mode, (tableOutline n).inv s mode → mode t = m → Q (f s) m) :
    (look t f).safe (tableOutline n) t m Q := by
  intro s mode hJ hm _ _
  refine ⟨.of_proc_eq (by simp) rfl rfl rfl, m, ?_, h s mode hJ hm⟩
  rw [← hm, update_eq_self]
  exact hJ

lemma safe_store {l : Label} {u : Machine X → Machine X}
    (h : ∀ s mode c, (tableOutline n).inv s mode → mode t = m → s.cpu t = some c →
      s.fresh t = false →
      Guar l s (u s) ∧ (tableOutline n).inv (u s) (update mode t m')) :
    Passes X n t m m' (store t l u) := by
  intro s mode hJ hm hg _
  obtain ⟨c, hcpu, hf⟩ := exists_cpu hg
  obtain ⟨hG, hJ'⟩ := h s mode c hJ hm hcpu hf
  exact ⟨hG, m', hJ', rfl⟩

/-! ### Locks -/

lemma Table.same {s s' : Machine X} {mode : Tid → Mode} (h : Table s mode)
    (hproc : s'.proc = s.proc) (hnproc : s'.nproc = s.nproc) : Table s' mode :=
  h.wake hnproc fun q => by
    rw [hproc]
    exact ⟨rfl, .inl rfl⟩

lemma safe_acquire (t : Tid) (ch : Option (Nat × Bool)) :
    Passes X n t ⟨.normal, ch⟩ ⟨.locked, ch⟩ (acquire t .ptable) := by
  refine safe_then (safe_look (Q := fun _ m => m = ⟨.normal, ch⟩) fun _ _ _ _ => rfl) fun held => ?_
  cases held with
  | true => trivial
  | false =>
    rintro s mode ⟨hn, hC, hT⟩ hm hg -
    obtain ⟨hr, hl⟩ := Bool.and_eq_true_iff.mp hg
    obtain ⟨c, hc, hf⟩ := exists_cpu hr
    refine ⟨.of_proc_eq (by simp) rfl rfl rfl, _, ?_, rfl⟩
    rw [← withPhase_eq hm]
    exact ⟨hn, hC.take hc (Option.isNone_iff_eq_none.mp hl),
      (hT.setPhase (by simp)).same rfl rfl⟩

lemma safe_release (t : Tid) (hph : ph = .locked ∨ ph = .out) :
    Passes X n t ⟨ph, ch⟩ ⟨.normal, ch⟩ (release t .ptable) := by
  rintro s mode ⟨hn, hC, hT⟩ hm hg -
  obtain ⟨c, hc, hf⟩ := exists_cpu hg
  by_cases hh : s.holding t .ptable = true
  · simp only [hh, if_true]
    refine ⟨.of_proc_eq (by simp) rfl rfl rfl, _, ?_, rfl⟩
    rw [← withPhase_eq hm]
    exact ⟨hn, hC.drop hc hf (by rw [hm]; exact hph),
      (hT.setPhase (by simp)).same rfl rfl⟩
  · simp only [hh]
    refine ⟨.of_proc_eq (by simp) rfl rfl rfl, mode t, ?_, trivial⟩
    rw [update_eq_self]
    exact ⟨hn, hC, hT⟩

/-- The other locks do not matter to the table. -/
lemma Inv.other_lock {s s' : Machine X} {mode : Tid → Mode} (h : (tableOutline n).inv s mode)
    (hproc : s'.proc = s.proc) (hnproc : s'.nproc = s.nproc) (hncpu : s'.ncpu = s.ncpu)
    (hon : s'.on = s.on) (hlock : s'.lock .ptable = s.lock .ptable) :
    (tableOutline n).inv s' mode := by
  obtain ⟨hn, hC, hT⟩ := h
  refine ⟨hnproc.trans hn, hC.wake hon hncpu hnproc hlock fun p => ?_, hT.same hproc hnproc⟩
  rw [hproc]
  exact ⟨rfl, .inl rfl⟩

lemma safe_acquire_other (t : Tid) (k : Nat) (m : Mode) :
    Passes X n t m m (acquire t (.other k)) := by
  refine safe_bind (safe_look (Q := fun _ m' => m' = m) fun _ _ _ _ => rfl) ?_
  rintro held m' rfl
  cases held with
  | true => trivial
  | false =>
    intro s mode hJ hm _ _
    refine ⟨.of_proc_eq (by simp) rfl rfl rfl, m', ?_, rfl⟩
    rw [← hm, update_eq_self]
    exact Inv.other_lock hJ rfl rfl rfl rfl (take_lock_ne (by simp))

lemma safe_release_other (t : Tid) (k : Nat) (m : Mode) :
    Passes X n t m m (release t (.other k)) := by
  intro s mode hJ hm _ _
  by_cases hh : s.holding t (.other k) = true
  · simp only [hh, if_true]
    refine ⟨.of_proc_eq (by simp) rfl rfl rfl, m, ?_, rfl⟩
    rw [← hm, update_eq_self]
    exact Inv.other_lock hJ rfl rfl rfl rfl (drop_lock_ne (by simp))
  · simp only [hh]
    refine ⟨.of_proc_eq (by simp) rfl rfl rfl, m, ?_, trivial⟩
    rw [← hm, update_eq_self]
    exact hJ

end Actions

/-! ### Switching -/

section Switching

variable {p : Nat} {ph : Phase} {ch : Option (Nat × Bool)}

/-- A process that acts is running, but for the moment before `swtch`. -/
lemma Cpus.running {s : Machine X} {mode : Tid → Mode} {c : Nat} (h : Cpus s mode)
    (hc : s.cpu (.proc p) = some c) (hp : (mode (.proc p)).phase ≠ .leaving) :
    (s.proc p).state = .running :=
  (h.on_state c p (cur_eq_proc.mp (cpu_some hc).2)).1 hp

/-- A process gives up its state, to be run or woken up later. -/
lemma safe_leave {f : Pcb → Pcb}
    (hst : ∀ q, (f q).state = .runnable ∨ (f q).state = .sleeping)
    (hsame : ∀ q, (f q).pid = q.pid ∧ (f q).parent = q.parent ∧ (f q).killed = q.killed ∧
      (f q).kstack = q.kstack ∧ (f q).forkret = q.forkret) :
    Passes X n (.proc p) ⟨.locked, ch⟩ ⟨.leaving, ch⟩
      (store (.proc p) .tau fun s => s.setProc p f) := by
  refine safe_store ?_
  rintro s mode c ⟨hn, hC, hT⟩ hm hc hf
  have hrun := hC.running hc (by simp [hm])
  have hst' := hst (s.proc p)
  obtain ⟨hpid, hpar, hk, hks, hfr⟩ := hsame (s.proc p)
  refine ⟨.setProc (by simp) (by simp [hrun]) ?_ hpid hk fun h1 h2 => ?_, hn, ?_⟩
  · rw [hrun]
    rcases hst' with h | h <;> simp [h]
  · rw [hks, h1] at h2
    cases h2
  · rw [← withPhase_eq hm]
    refine ⟨hC.leave hc (by simp [hm]) ?_, hT.setProc hpar (.inr ⟨.inr (.inr hrun), ?_⟩)
      (fun _ => withPhase_child) fun q hq => ?_⟩
    · rcases hst' with h | h <;> simp [h]
    · rcases hst' with h | h <;> simp [h]
    · by_cases hqp : q = p
      · rw [hqp, withPhase_same] at hq
        cases hq
      · rwa [withPhase_ne (by simpa using hqp)] at hq

lemma safe_sched (hph : ph = .out ∨ ph = .normal) :
    Passes X n (.proc p) ⟨.leaving, ch⟩ ⟨ph, ch⟩ (sched p) := by
  refine safe_then (safe_look (Q := fun _ m => m = ⟨.leaving, ch⟩) fun _ _ _ _ => rfl) fun e => ?_
  cases e with
  | some e => trivial
  | none =>
    refine safe_store ?_
    rintro s mode c ⟨hn, hC, hT⟩ hm hc hf
    refine ⟨.of_proc_eq (by simp) rfl rfl rfl, hn, ?_⟩
    rw [← withPhase_eq hm]
    refine ⟨hC.switchOut hc (by rw [hm]) hph, (hT.setPhase ?_).same rfl rfl⟩
    rcases hph with rfl | rfl <;> simp

lemma safe_yield : Passes X n (.proc p) ⟨.normal, ch⟩ ⟨.normal, ch⟩ (yield p) := by
  refine safe_then (safe_acquire _ ch) fun _ => ?_
  refine safe_then (safe_leave (fun _ => .inl rfl) fun _ => ⟨rfl, rfl, rfl, rfl, rfl⟩) fun _ => ?_
  refine safe_then (safe_sched (.inl rfl)) fun _ => ?_
  exact safe_release _ (.inr rfl)

lemma safe_interrupts (k : Nat) :
    Passes X n (.proc p) ⟨.normal, ch⟩ ⟨.normal, ch⟩ (interrupts p k) := by
  induction k with
  | zero => exact rfl
  | succ k ih =>
    refine safe_then safe_yield fun _ => ?_
    exact ih

lemma safe_forkret : Passes X n (.proc p) ⟨.normal, ch⟩ ⟨.normal, ch⟩ (forkret p) := by
  rintro s mode ⟨hn, hC, hT⟩ hm hg -
  obtain ⟨hc, hf⟩ := Bool.and_eq_true_iff.mp hg
  obtain ⟨c, hc⟩ := Option.isSome_iff_exists.mp hc
  have hon := cur_eq_proc.mp (cpu_some hc).2
  have hrun := hC.running hc (by simp [hm])
  have hh : s.holding (.proc p) .ptable = true := by
    unfold Machine.holding
    simp [hc, hC.resumed c p hon (.inr hf)]
  simp only [hh, if_true]
  refine ⟨?_, mode (.proc p), ?_, by rw [hm]; rfl⟩
  · refine .of_entry (z := p) (by simp) rfl rfl (fun y hy => setProc_ne hy)
      (by simp [hrun]) ?_ ?_ ?_
      ?_ <;>
      rw [setProc_same]
    exacts [Iff.rfl, rfl, rfl, fun h1 h2 => by simp [h1] at h2]
  · rw [update_eq_self]
    refine ⟨hn, hC.forkret hc hf (by rw [hm]), ?_⟩
    have hT' : Table (s.drop (.proc p) .ptable) mode := hT.same rfl rfl
    exact hT'.setProc rfl (.inl rfl) (fun _ => rfl) fun _ h => h

lemma safe_schedulerLoop (c : Nat) (k : Nat) : ∀ i, i + k = n →
    (ph = .locked ∨ ph = .out) →
    (schedulerLoop c i k).safe (tableOutline (X := X) n) (.cpu c) ⟨ph, ch⟩
      fun _ m => (m.phase = .locked ∨ m.phase = .out) ∧ m.child = ch := by
  induction k generalizing ph with
  | zero => exact fun i _ hph => ⟨hph, rfl⟩
  | succ k ih =>
    intro i hi hph
    refine safe_bind (Q := fun run m => m = ⟨if run then .picked i else ph, ch⟩) ?_ ?_
    · rintro s mode ⟨hn, hC, hT⟩ hm hg -
      obtain ⟨c', hc, hf⟩ := exists_cpu hg
      obtain rfl := (cur_eq_cpu.mp (cpu_some hc).2).1
      by_cases hr : (s.proc i).state = .runnable
      · simp only [hr, if_true, decide_true]
        refine ⟨.setProc (by simp) (by simp [hr]) (by simp [hr]) rfl rfl
          (fun h1 h2 => by simp [h1] at h2), _, ?_, rfl⟩
        rw [← withPhase_eq hm]
        refine ⟨hn, hC.pick hc (by rw [hm]; exact hph) (by omega) hr,
          hT.setProc rfl (.inr ⟨.inr (.inl hr), .inr (.inr rfl)⟩) (fun _ => withPhase_child)
            fun q hq => ?_⟩
        rwa [withPhase_ne (by simp)] at hq
      · simp only [hr, if_false, decide_false]
        refine ⟨.of_proc_eq (by simp) rfl rfl rfl, _, ?_, rfl⟩
        rw [show (⟨if false = true then _ else ph, ch⟩ : Mode) = mode (.cpu c') by rw [hm]; rfl,
          update_eq_self]
        exact ⟨hn, hC, hT⟩
    · rintro run m rfl
      cases run with
      | false => exact ih (i + 1) (by omega) hph
      | true =>
        refine safe_bind (Q := fun _ m => m = ⟨.out, ch⟩) (safe_store ?_) ?_
        · rintro s mode c' ⟨hn, hC, hT⟩ hm hc hf
          obtain rfl := (cur_eq_cpu.mp (cpu_some hc).2).1
          refine ⟨.of_proc_eq (by simp) rfl rfl rfl, hn, ?_⟩
          rw [← withPhase_eq hm]
          exact ⟨hC.switchIn hc (by rw [hm]; rfl), (hT.setPhase (by simp)).same rfl rfl⟩
        · rintro - m rfl
          exact ih (i + 1) (by omega) (.inr rfl)

lemma safe_scheduler (c : Nat) :
    Passes X n (.cpu c) ⟨.normal, ch⟩ ⟨.normal, ch⟩ (scheduler c n) := by
  refine safe_then (safe_acquire _ ch) fun _ => ?_
  refine safe_bind (safe_schedulerLoop c n 0 (by omega) (.inl rfl)) ?_
  rintro - ⟨ph, ch'⟩ ⟨hph, rfl⟩
  exact safe_release _ hph

end Switching

/-! ### Sleeping and waking -/

section Sleeping

variable {p : Nat} {t : Tid} {ch : Option (Nat × Bool)} {m : Mode}

/-- Actions that wake processes up, or change what the invariant does not speak of. -/
lemma Inv.wake {s s' : Machine X} {mode : Tid → Mode} (h : (tableOutline n).inv s mode)
    (hnproc : s'.nproc = s.nproc) (hncpu : s'.ncpu = s.ncpu) (hon : s'.on = s.on)
    (hlock : s'.lock = s.lock)
    (hproc : ∀ q, (s'.proc q).parent = (s.proc q).parent ∧
      (s'.proc q).forkret = (s.proc q).forkret ∧ Wakes (s.proc q) (s'.proc q)) :
    (tableOutline n).inv s' mode := by
  obtain ⟨hn, hC, hT⟩ := h
  exact ⟨hnproc.trans hn, hC.wake hon hncpu hnproc (by rw [hlock]) fun q => (hproc q).2,
    hT.wake hnproc fun q => ⟨(hproc q).1, (hproc q).2.2⟩⟩

lemma safe_wakeup1 (chan : Machine X → Chan) :
    Passes X n t m m (store t .tau fun s => s.wakeup1 (chan s)) := by
  refine safe_store fun s mode c hJ hm _ _ => ⟨?_, ?_⟩
  · refine .silent (by simp) rfl rfl fun z => ?_
    obtain ⟨ht, hk, -⟩ := wakeup1_proc s (chan s) z
    exact .woken ht fun h => .inl (hk ▸ h)
  · rw [← hm, update_eq_self]
    refine Inv.wake hJ rfl rfl rfl rfl fun q => ?_
    obtain ⟨ht, -, hp⟩ := wakeup1_proc s (chan s) q
    exact ⟨hp, ht.forkret, ht.state⟩

lemma safe_wakeup (chan : Chan) : Passes X n t ⟨.normal, ch⟩ ⟨.normal, ch⟩ (wakeup t chan) := by
  refine safe_then (safe_acquire _ ch) fun _ => ?_
  refine safe_then (safe_wakeup1 fun _ => chan) fun _ => ?_
  exact safe_release _ (.inl rfl)

/-- What `updatestatistics` does to an entry. -/
lemma updatestatistics_proc (s : Machine X) (q : Nat) :
    Touched (s.proc q) (s.updatestatistics.proc q) ∧
    (s.updatestatistics.proc q).killed = (s.proc q).killed ∧
    (s.updatestatistics.proc q).parent = (s.proc q).parent := by
  unfold Machine.updatestatistics
  dsimp only
  split <;> exact ⟨⟨rfl, rfl, rfl, rfl, .inl rfl⟩, rfl, rfl⟩

lemma safe_updatestatistics : Passes X n t ⟨.normal, ch⟩ ⟨.normal, ch⟩ (updatestatistics t) := by
  refine safe_then (safe_acquire _ ch) fun _ => ?_
  refine safe_bind (Q := fun _ m => m = ⟨.locked, ch⟩) (safe_store ?_) ?_
  · refine fun s mode c hJ hm _ _ => ⟨?_, ?_⟩
    · refine .silent (by simp) rfl rfl fun z => ?_
      obtain ⟨ht, hk, -⟩ := updatestatistics_proc s z
      exact .woken ht fun h => .inl (hk ▸ h)
    · rw [← hm, update_eq_self]
      refine Inv.wake hJ rfl rfl rfl rfl fun q => ?_
      obtain ⟨ht, -, hp⟩ := updatestatistics_proc s q
      exact ⟨hp, ht.forkret, ht.state⟩
  · rintro - m rfl
    exact safe_release _ (.inl rfl)

/-- After `swtch` a process is running again, and holds `ptable.lock`. -/
lemma safe_tidyUp :
    Passes X n (.proc p) ⟨.out, ch⟩ ⟨.locked, ch⟩
      (store (.proc p) .tau fun s => s.setProc p fun q => { q with chan := .null }) := by
  refine safe_store ?_
  rintro s mode c ⟨hn, hC, hT⟩ hm hc hf
  have hrun := hC.running hc (by simp [hm])
  refine ⟨.setProc (by simp) (by simp [hrun]) Iff.rfl rfl rfl (fun h1 h2 => by simp [h1] at h2), ?_⟩
  rw [← withPhase_eq hm]
  have hJ : (tableOutline n).inv s (withPhase mode (.proc p) .locked) :=
    ⟨hn, hC.setPhase hc (by simp [hm]) (.inl rfl), hT.setPhase (by simp)⟩
  refine Inv.wake hJ rfl rfl rfl rfl fun q => ?_
  by_cases hq : q = p
  · subst hq
    rw [setProc_same]
    exact ⟨rfl, rfl, .inl rfl⟩
  · rw [setProc_ne hq]
    exact ⟨rfl, rfl, .inl rfl⟩

/-- From the lock to the lock: the middle part of `sleep`. -/
lemma safe_sleep_ptable (chan : Chan) (delay : Nat) :
    Passes X n (.proc p) ⟨.locked, ch⟩ ⟨.locked, ch⟩ (sleep p chan .ptable delay) := by
  refine safe_then (safe_leave (fun _ => .inr rfl) fun _ => ⟨rfl, rfl, rfl, rfl, rfl⟩) fun _ => ?_
  refine safe_then (safe_sched (.inl rfl)) fun _ => ?_
  refine safe_then safe_tidyUp fun _ => ?_
  exact rfl

lemma safe_sleep_other (chan : Chan) (k delay : Nat) :
    Passes X n (.proc p) ⟨.normal, ch⟩ ⟨.normal, ch⟩ (sleep p chan (.other k) delay) := by
  refine safe_then (safe_acquire _ ch) fun _ => ?_
  refine safe_then (safe_release_other _ k _) fun _ => ?_
  refine safe_then (safe_leave (fun _ => .inr rfl) fun _ => ⟨rfl, rfl, rfl, rfl, rfl⟩) fun _ => ?_
  refine safe_then (safe_sched (.inl rfl)) fun _ => ?_
  refine safe_then safe_tidyUp fun _ => ?_
  refine safe_then (safe_release _ (.inl rfl)) fun _ => ?_
  refine safe_then (safe_interrupts delay) fun _ => ?_
  exact safe_acquire_other _ k _

lemma safe_sleepOn (chan : Chan) (lk : Lk) (delay : Nat) :
    Passes X n (.proc p) ⟨.normal, ch⟩ ⟨.normal, ch⟩ (sleepOn p chan lk delay) := by
  cases lk with
  | ptable =>
    refine safe_then (safe_acquire _ ch) fun _ => ?_
    refine safe_then (safe_sleep_ptable chan delay) fun _ => ?_
    exact safe_release _ (.inl rfl)
  | other k =>
    refine safe_then (safe_acquire_other _ k _) fun _ => ?_
    refine safe_then (safe_sleep_other chan k delay) fun _ => ?_
    exact safe_release_other _ k _

end Sleeping

/-! ### Kill and traps -/

section Kill

variable {p : Nat} {ch : Option (Nat × Bool)}

lemma findPid_some {s : Machine X} {pid : Int} {q : Nat} (h : s.findPid pid = some q) :
    q < s.nproc ∧ (s.proc q).pid = pid := by
  refine ⟨List.mem_range.mp (List.mem_of_find?_eq_some h), ?_⟩
  simpa using List.find?_some h

/-- What `kill` does to an entry. -/
lemma kill_proc (s : Machine X) (p : Nat) (pid : Int) (q : Nat) :
    Touched (s.proc q) ((s.kill p pid).proc q) ∧
    (((s.kill p pid).proc q).killed = if s.findPid pid = some q then true else (s.proc q).killed) ∧
    ((s.kill p pid).proc q).parent = (s.proc q).parent := by
  unfold Machine.kill
  cases hf : s.findPid pid with
  | none => exact ⟨⟨rfl, rfl, rfl, rfl, .inl rfl⟩, rfl, rfl⟩
  | some z =>
    by_cases hq : q = z
    · subst hq
      rw [setProc_same, if_pos rfl]
      refine ⟨⟨rfl, rfl, rfl, rfl, ?_⟩, rfl, rfl⟩
      by_cases hs : (s.proc q).state = .sleeping <;> simp [Wakes, hs]
    · have hne : ¬some z = some q := fun e => hq (Option.some.inj e).symm
      rw [setProc_ne hq, if_neg hne]
      exact ⟨⟨rfl, rfl, rfl, rfl, .inl rfl⟩, rfl, rfl⟩

lemma kill_log (s : Machine X) (p : Nat) (pid : Int) :
    (s.kill p pid).log = .kill p pid (if (s.findPid pid).isSome then 0 else -1) :: s.log := by
  unfold Machine.kill
  cases s.findPid pid <;> rfl

lemma kill_fields (s : Machine X) (p : Nat) (pid : Int) :
    (s.kill p pid).nproc = s.nproc ∧ (s.kill p pid).ncpu = s.ncpu ∧
    (s.kill p pid).nextpid = s.nextpid ∧ (s.kill p pid).on = s.on ∧
    (s.kill p pid).lock = s.lock ∧ (s.kill p pid).data = s.data := by
  unfold Machine.kill
  cases s.findPid pid <;> exact ⟨rfl, rfl, rfl, rfl, rfl, rfl⟩

lemma Guar.of_kill (s : Machine X) (p : Nat) (pid : Int) :
    Guar (.kill pid) s (s.kill p pid) := by
  have hinj : ∀ e, (s.kill p pid).log = e :: s.log → .kill p pid _ = e := fun e h =>
    (List.cons.inj ((kill_log s p pid).symm.trans h)).1
  refine ⟨fun z => ?_, .inr ⟨_, kill_log s p pid⟩,
    .inl ⟨(kill_fields s p pid).2.2.1, fun _ _ h => ?_⟩, fun e h => ?_, fun pid' h => ⟨p, ?_⟩⟩
  · obtain ⟨ht, hkilled, -⟩ := kill_proc s p pid z
    refine .woken ht fun hk => ?_
    rw [hkilled] at hk
    split at hk
    next hf => exact .inr (.inl ⟨pid, rfl, hf⟩)
    next => exact .inl hk
  · cases hinj _ h
  · rw [← hinj e h]
    exact rfl
  · rw [Label.kill.inj h]

lemma safe_kill (pid : Int) : Passes X n (.proc p) ⟨.normal, ch⟩ ⟨.normal, ch⟩ (kill p pid) := by
  refine safe_then (safe_acquire _ ch) fun _ => ?_
  refine safe_bind (Q := fun _ m => m = ⟨.locked, ch⟩) ?_ ?_
  · intro s mode hJ hm _ _
    refine ⟨.of_kill s p pid, _, ?_, rfl⟩
    rw [← hm, update_eq_self]
    obtain ⟨h1, h2, -, h4, h5, -⟩ := kill_fields s p pid
    refine Inv.wake hJ h1 h2 h4 h5 fun q => ?_
    obtain ⟨ht, -, hp⟩ := kill_proc s p pid q
    exact ⟨hp, ht.forkret, ht.state⟩
  · rintro r m rfl
    refine safe_then (safe_release _ (.inl rfl)) fun _ => ?_
    exact rfl

lemma safe_trap : Passes X n (.proc p) ⟨.normal, ch⟩ ⟨.normal, ch⟩ (trap p) := by
  refine safe_store ?_
  intro s mode c hJ hm hc _
  have hrun := hJ.2.1.running hc (by simp [hm])
  constructor
  · refine .tells (by simp) rfl rfl (.of_entry (fun y hy => upd_ne hy) (z := p) ?_) (by simp)
      trivial
    refine ⟨fun h1 h2 => ?_, fun hz => ?_, fun _ _ => ?_, fun hu => ?_,
      fun _ => .inr (.inr ⟨by simp [hrun], rfl⟩), fun hu => ?_⟩ <;>
      simp_all [Machine.setProc]
  · rw [← hm, update_eq_self]
    refine Inv.wake hJ rfl rfl rfl rfl fun q => ?_
    by_cases hq : q = p
    · subst hq
      simp [Wakes, Machine.setProc]
    · simp [Wakes, Machine.setProc, upd_ne hq]

end Kill

/-! ### Fork -/

section Fork

variable {s s' : Machine X} {mode mode' : Tid → Mode} {p np z : Nat} {f : Pcb → Pcb}
  {ch : Option (Nat × Bool)} {b : Bool}

/-- Actions on an entry that is on no CPU. -/
lemma Cpus.entry (h : Cpus s mode) (hon : s'.on = s.on) (hncpu : s'.ncpu = s.ncpu)
    (hnproc : s'.nproc = s.nproc) (hlock : s'.lock .ptable = s.lock .ptable)
    (hphase : ∀ t, (mode' t).phase = (mode t).phase)
    (hother : ∀ q, q ≠ z → s'.proc q = s.proc q) (hoff : ∀ c, s.on c ≠ some z)
    (hrun : (s.proc z).state ≠ .running) : Cpus s' mode' := by
  refine h.congr hon hncpu hnproc hlock hphase fun q hq => ?_
  have hqz : q ≠ z := by
    rintro rfl
    rcases hq with ⟨c, hc⟩ | hq
    exacts [hoff c hc, hrun hq]
  rw [hother q hqz]
  have hst : (s.proc q).state ≠ .embryo ∧ (s.proc q).state ≠ .unused := by
    rcases hq with ⟨c, hc⟩ | hq
    · exact (h.on_state c q hc).2
    · simp [hq]
  exact ⟨id, hst.1, hst.2, id⟩

lemma update_phase {t : Tid} {m : Mode} (hm : m.phase = (mode t).phase) (t' : Tid) :
    (update mode t m t').phase = (mode t').phase := by
  by_cases ht : t' = t
  · rw [ht, update_self, hm]
  · rw [update_of_ne ht]

lemma Guar.of_alloc (hz : (s.proc z).state = .unused) : Guar .alloc s (s.alloc z) := by
  obtain ⟨s', hs'⟩ : ∃ s', s' = s.alloc z := ⟨_, rfl⟩
  rw [← hs']
  unfold Machine.alloc at hs'
  rw [if_pos hz] at hs'
  have hlog : s'.log = .created z s.nextpid :: s.log := by rw [hs']
  have hinj : ∀ e, s'.log = e :: s.log → .created z s.nextpid = e := fun e h =>
    (List.cons.inj (hlog.symm.trans h)).1
  have hne : ∀ q, q ≠ z → s'.proc q = s.proc q := fun q hq => by
    rw [hs']
    exact upd_ne hq
  have hsame : (s'.proc z).pid = s.nextpid ∧ (s'.proc z).state = .embryo ∧
      (s'.proc z).killed = (s.proc z).killed ∧ (s'.proc z).kstack = (s.proc z).kstack := by
    rw [hs']
    refine ⟨?_, ?_, ?_, ?_⟩ <;> simp [Machine.setProc]
  refine ⟨.of_entry hne ⟨fun h1 h2 => ?_, fun h => ?_, fun h1 => absurd hz h1, fun _ _ => ?_,
      fun hk => .inl ?_, fun h => ?_⟩, .inr ⟨_, hlog⟩, .inr ⟨by rw [hs'], z, hz, hlog⟩,
    fun e h => ?_, fun _ h => ?_⟩
  · rw [hsame.2.2.2, h1] at h2
    cases h2
  · rw [hz] at h
    cases h
  · rw [hsame.1, hlog]
  · rwa [hsame.2.2.1] at hk
  · rw [hsame.2.1] at h
    cases h
  · rw [← hinj e h]
    trivial
  · cases h

/-- The search of `allocproc`. -/
lemma safe_allocLoop (k : Nat) : ∀ i, i + k = n →
    (allocLoop p i k).safe (tableOutline (X := X) n) (.proc p) ⟨.locked, none⟩
      fun np m => m = ⟨.locked, np.map fun np => (np, false)⟩ := by
  induction k with
  | zero => exact fun i _ => rfl
  | succ k ih =>
    intro i hi
    refine safe_bind (Q := fun found m =>
      m = ⟨.locked, if found then some (i, false) else none⟩) ?_ ?_
    · rintro s mode ⟨hn, hC, hT⟩ hm - -
      by_cases hu : (s.proc i).state = .unused
      · simp only [hu, decide_true]
        refine ⟨.of_alloc hu, ⟨.locked, some (i, false)⟩, ⟨?_, ?_, ?_⟩, rfl⟩
        · unfold Machine.alloc
          rw [if_pos hu]
          exact hn
        · have hoff : ∀ c, s.on c ≠ some i := fun c hc => (hC.on_state c i hc).2.2 hu
          refine hC.entry (z := i) ?_ ?_ ?_ ?_ (fun t => update_phase (by rw [hm]) t)
            (fun q hq => ?_) hoff (by simp [hu])
          all_goals
            unfold Machine.alloc
            rw [if_pos hu]
          · rfl
          · rfl
          · rfl
          · rfl
          · exact upd_ne hq
        · exact hT.alloc hu (by omega) _ (by simp)
      · have he : s.alloc i = s := by
          unfold Machine.alloc
          rw [if_neg hu]
        simp only [hu, decide_false, he]
        refine ⟨.of_proc_eq (by simp) rfl rfl rfl, _, ?_, rfl⟩
        rw [show (⟨.locked, if false = true then some (i, false) else none⟩ : Mode) =
          mode (.proc p) by rw [hm]; rfl, update_eq_self]
        exact ⟨hn, hC, hT⟩
    · rintro found m rfl
      cases found with
      | true => exact rfl
      | false => exact ih (i + 1) (by omega)

/-- The entry that a process is making a new process of is on no CPU. -/
lemma Table.child_off (hT : Table s mode) (hC : Cpus s mode)
    (hc : (mode (.proc p)).child = some (np, b)) (c : Nat) : s.on c ≠ some np := fun hon =>
  (hC.on_state c np hon).2.1 (hT.child p np b hc).1

/-- An action of `fork` on the new entry. -/
lemma safe_setChild {l : Label} {ch' : Option (Nat × Bool)} (hl : ∀ pid, l ≠ .kill pid)
    (hf : ∀ q, (f q).pid = q.pid ∧ (f q).killed = q.killed)
    (hcases : ∀ q, q.state = .embryo → q.parent = (if b then some p else none) →
      ((f q).state = .unused ∧ (f q).parent = none ∧ b = false ∧ ch' = none ∧ l = .forkFails np) ∨
      ((f q).state = .embryo ∧ ∃ b', ch' = some (np, b') ∧
        (f q).parent = if b' then some p else none) ∨
      ((f q).state = .runnable ∧ (f q).parent = some p ∧ ch' = none)) :
    Passes X n (.proc p) ⟨.normal, some (np, b)⟩ ⟨.normal, ch'⟩
      (store (.proc p) l fun s => s.setProc np f) := by
  refine safe_store ?_
  rintro s mode c ⟨hn, hC, hT⟩ hm hc -
  have hch : (mode (.proc p)).child = some (np, b) := by rw [hm]
  obtain ⟨hemb, hpar⟩ := hT.child p np b hch
  have hrun := hC.running hc (by simp [hm])
  have hcase := hcases _ hemb hpar
  have hoff := hT.child_off hC hch
  refine ⟨?_, hn, hC.entry (z := np) rfl rfl rfl rfl (fun t => update_phase (by rw [hm]) t)
    (fun q hq => setProc_ne hq) hoff (by simp [hemb]),
    hT.setChild hch (.inr (.inr hrun)) (by simp) ?_⟩
  · rcases hcase with ⟨h1, -, -, -, h5⟩ | hcase
    · refine .silent hl rfl rfl (.of_entry (fun y hy => setProc_ne hy) (z := np) ?_)
      refine ⟨fun _ _ => hoff, fun h => ?_, fun _ _ => ?_, fun h => ?_, fun h => .inl ?_,
        fun h => .inl (.inr ⟨h5, ?_⟩)⟩
      · rw [hemb] at h
        cases h
      · rw [setProc_same, (hf _).1]
      · rw [hemb] at h
        cases h
      · rwa [setProc_same, (hf _).2] at h
      · rw [setProc_same, (hf _).2]
    · refine .setProc hl (by simp [hemb]) ?_ (hf _).1 (hf _).2 fun _ _ => hoff
      rw [hemb]
      rcases hcase with ⟨h1, -⟩ | ⟨h1, -⟩ <;> simp [h1]
  · rcases hcase with ⟨h1, h2, h3, h4, -⟩ | hcase | hcase
    · exact .inl ⟨h1, h2, h3, h4⟩
    · exact .inr (.inl hcase)
    · exact .inr (.inr hcase)

lemma safe_allocproc (o : ForkOracle) :
    (allocproc p n o).safe (tableOutline (X := X) n) (.proc p) ⟨.normal, none⟩
      fun np m => m = ⟨.normal, np.map fun np => (np, false)⟩ := by
  refine safe_then (safe_acquire _ none) fun _ => ?_
  refine safe_then (safe_allocLoop n 0 (by omega)) fun np => ?_
  refine safe_then (safe_release _ (.inl rfl)) fun _ => ?_
  cases np with
  | none => exact rfl
  | some np =>
    refine safe_then (safe_interrupts _) fun _ => ?_
    by_cases hk : o.kalloc = true
    · simp only [hk, if_true]
      refine safe_then (safe_setChild (b := false) (by simp) (fun q => ⟨rfl, rfl⟩)
        fun q h1 h2 => .inr (.inl ⟨h1, false, rfl, h2⟩)) fun _ => ?_
      exact rfl
    · simp only [hk]
      refine safe_then (safe_setChild (b := false) (by simp) (fun q => ⟨rfl, rfl⟩)
        fun q h1 h2 => .inl ⟨rfl, h2, rfl, rfl, rfl⟩) fun _ => ?_
      exact rfl

/-- `fork` reads the pid of its child. -/
lemma safe_forked : Passes X n (.proc p) ⟨.normal, some (np, true)⟩ ⟨.normal, some (np, true)⟩
    (.act .tau (fun s => s.runs (.proc p))
      (fun s => { s with log := .forked p (s.proc np).pid :: s.log })
      fun s => .ret (s.proc np).pid) := by
  rintro s mode ⟨hn, hC, hT⟩ hm - -
  obtain ⟨hemb, hpar⟩ := hT.child p np true (by rw [hm])
  refine ⟨.tells (by simp) rfl rfl (fun _ => .same rfl) (by simp) ⟨np, hpar, hemb, rfl⟩, _, ?_, rfl⟩
  rw [← hm, update_eq_self]
  exact Inv.other_lock ⟨hn, hC, hT⟩ rfl rfl rfl rfl rfl

lemma safe_fork (o : ForkOracle) :
    Passes X n (.proc p) ⟨.normal, none⟩ ⟨.normal, none⟩ (fork p n o) := by
  refine safe_then (safe_allocproc o) fun np => ?_
  cases np with
  | none => exact rfl
  | some np =>
    refine safe_then (safe_interrupts _) fun _ => ?_
    by_cases hc : o.copyuvm = true
    · simp only [hc, if_true]
      refine safe_then (safe_setChild (b := false) (by simp) (fun q => ⟨rfl, rfl⟩)
        fun q h1 _ => .inr (.inl ⟨h1, true, rfl, rfl⟩)) fun _ => ?_
      refine safe_then (safe_interrupts _) fun _ => ?_
      refine safe_then safe_forked fun pid => ?_
      refine safe_then (safe_setChild (b := true) (by simp) (fun q => ⟨rfl, rfl⟩)
        fun q _ h2 => .inr (.inr ⟨rfl, h2, rfl⟩)) fun _ => ?_
      exact rfl
    · simp only [hc]
      refine safe_then (safe_setChild (b := false) (by simp) (fun q => ⟨rfl, rfl⟩)
        fun q h1 h2 => .inr (.inl ⟨h1, false, rfl, h2⟩)) fun _ => ?_
      refine safe_then (safe_interrupts _) fun _ => ?_
      refine safe_then (safe_setChild (b := false) (by simp) (fun q => ⟨rfl, rfl⟩)
        fun q _ h2 => .inl ⟨rfl, h2, rfl, rfl, rfl⟩) fun _ => ?_
      exact rfl

end Fork

/-! ### Exit and wait -/

section Exit

variable {s : Machine X} {mode : Tid → Mode} {p z c : Nat}

lemma safe_exit : Passes X n (.proc p) ⟨.normal, none⟩ ⟨.normal, none⟩ (exit p) := by
  unfold exit
  split
  next => trivial
  next hp =>
    refine safe_then (safe_acquire _ none) fun _ => ?_
    refine safe_then (safe_wakeup1 fun s => s.parentChan p) fun _ => ?_
    refine safe_bind (Q := fun _ m => m = ⟨.orphaned, none⟩) (safe_store ?_) ?_
    · rintro s mode c ⟨hn, hC, hT⟩ hm hc hf
      obtain ⟨h1, h2, h3, h4, h5, h6, -⟩ := abandon_fields s p
      refine ⟨.silent (by simp) h6 h3 fun z => ?_, h1.trans hn, ?_⟩
      · obtain ⟨ht, hk, -⟩ := abandon_proc s p z
        exact .woken ht fun h => .inl (hk ▸ h)
      · rw [← withPhase_eq hm]
        refine ⟨(hC.setPhase hc (by simp [hm]) (.inr rfl)).wake h4 h2 h1 (by rw [h5]) fun q => ?_,
          hT.abandon (by rw [hm]) hp⟩
        obtain ⟨ht, -⟩ := abandon_proc s p q
        exact ⟨ht.forkret, ht.state⟩
    · rintro - m rfl
      refine safe_bind (Q := fun _ m => m = ⟨.leaving, none⟩) (safe_store ?_) ?_
      · rintro s mode c ⟨hn, hC, hT⟩ hm hc hf
        have hrun := hC.running hc (by simp [hm])
        refine ⟨.setProc (by simp) (by simp [hrun]) (by simp [hrun]) rfl rfl
          (fun h1 h2 => by simp [h1] at h2), hn, ?_⟩
        rw [← withPhase_eq hm]
        exact ⟨hC.leave hc (by simp [hm]) (by simp), hT.exit (by rw [hm]) (.inr (.inr hrun))⟩
      · rintro - m rfl
        exact safe_sched (.inr rfl)

/-- No CPU executes a zombie while another process holds the lock. -/
lemma Cpus.zombie_off (h : Cpus s mode) (hc : s.cpu (.proc p) = some c)
    (hp : (mode (.proc p)).phase = .locked) (hz : (s.proc z).state = .zombie) (c' : Nat) :
    s.on c' ≠ some z := fun hon => by
  have hl : s.lock .ptable = some c := h.lock_of hc (by simp [hp])
  by_cases hlv : (mode (.proc z)).phase = .leaving
  · have hcur := h.held_eq hl (t := .proc z) (by simp [hlv]) (by simp [hlv])
    rw [(cpu_some hc).2] at hcur
    rw [← hcur, hp] at hlv
    cases hlv
  · rw [(h.on_state c' z hon).1 hlv] at hz
    cases hz

lemma zombieChild_some (h : s.zombieChild p = some z) :
    (s.proc z).parent = some p ∧ (s.proc z).state = .zombie := by
  simpa using List.find?_some h

lemma havekids_false (hT : Table s mode) (h : s.havekids p = false) (z : Nat) :
    (s.proc z).parent ≠ some p := fun hz => by
  have hlt : z < s.nproc := by
    by_contra hge
    exact (hT.parent z p hz).1 (hT.bound z (by omega))
  unfold Machine.havekids at h
  rw [List.any_eq_false] at h
  exact h z (List.mem_range.mpr hlt) (by simpa using hz)

/-- An action that frees the entry of a zombie. -/
lemma Guar.of_reap {clear : Pcb → Pcb} (hz : (s.proc z).state = .zombie)
    (hpar : (s.proc z).parent = some p) (hoff : ∀ c, s.on c ≠ some z)
    (hclear : (clear (s.proc z)).state = .unused ∧ (clear (s.proc z)).killed = false) :
    Guar .tau s { s.setProc z clear with log := .waited p (s.proc z).pid :: s.log } := by
  obtain ⟨s', hs'⟩ : ∃ s' : Machine X,
    s' = { s.setProc z clear with log := .waited p (s.proc z).pid :: s.log } := ⟨_, rfl⟩
  have hzz : s'.proc z = clear (s.proc z) := by
    rw [hs']
    exact upd_same ..
  have hlog : s'.log = .waited p (s.proc z).pid :: s.log := by rw [hs']
  have hne : ∀ q, q ≠ z → s'.proc q = s.proc q := fun q hq => by
    rw [hs']
    exact upd_ne hq
  rw [← hs']
  refine .tells (by simp) hlog (by rw [hs']; rfl) (.of_entry hne ⟨fun _ _ => hoff,
    fun _ => .inr ⟨p, hpar, hlog⟩, fun _ h => ?_, fun h => ?_, fun h => .inl ?_, fun _ => .inr ?_⟩)
    (by simp) ⟨z, hpar, hz, rfl, by rw [hzz, hclear.1]⟩
  · rw [hzz] at h
    exact absurd hclear.1 h
  · rw [hz] at h
    cases h
  · rw [hzz, hclear.2] at h
    cases h
  · rw [hzz, hclear.2]

lemma waitFails_true (hT : Table s mode) (h : s.waitFails p = true) :
    (∀ z, (s.proc z).parent ≠ some p) ∨ (s.proc p).killed = true := by
  unfold Machine.waitFails at h
  rcases Bool.or_eq_true_iff.mp h with h | h
  · exact .inl fun z => havekids_false hT (by simpa using h) z
  · exact .inr h

/-- One turn of the loop of `wait`. -/
lemma safe_reap {clear : Pcb → Pcb}
    (hclear : ∀ q, (clear q).state = .unused ∧ (clear q).parent = none ∧ (clear q).killed = false) :
    Passes X n (.proc p) ⟨.locked, none⟩ ⟨.locked, none⟩
      (.act .tau (fun s => s.runs (.proc p)) (fun s => s.reap clear p)
        fun s => .ret (s.zombieChild p |>.map s.proc, s.waitFails p)) := by
  rintro s mode ⟨hn, hC, hT⟩ hm hg -
  obtain ⟨c, hc, -⟩ := exists_cpu hg
  dsimp only
  refine (fun h : Guar .tau s (s.reap clear p) ∧ (tableOutline n).inv (s.reap clear p) mode =>
    ⟨h.1, mode (.proc p), by rw [update_eq_self]; exact h.2, hm⟩) ?_
  unfold Machine.reap
  cases hz : s.zombieChild p with
  | some z =>
    obtain ⟨hpar, hzom⟩ := zombieChild_some hz
    have hoff := hC.zombie_off hc (by rw [hm]) hzom
    obtain ⟨h1, h2, h3⟩ := hclear (s.proc z)
    exact ⟨.of_reap hzom hpar hoff ⟨h1, h3⟩, hn, hC.entry (z := z) rfl rfl rfl rfl (fun _ => rfl)
      (fun q hq => upd_ne hq) hoff (by simp [hzom]), hT.reap hzom ⟨h1, h2⟩⟩
  | none =>
    cases hf : s.waitFails p with
    | true =>
      exact ⟨.tells (by simp) rfl rfl (fun _ => .same rfl) (by simp) (waitFails_true hT hf),
        Inv.other_lock ⟨hn, hC, hT⟩ rfl rfl rfl rfl rfl⟩
    | false => exact ⟨.of_proc_eq (by simp) rfl rfl rfl, hn, hC, hT⟩

lemma safe_waitLoop {clear : Pcb → Pcb}
    (hclear : ∀ q, (clear q).state = .unused ∧ (clear q).parent = none ∧ (clear q).killed = false)
    (k : Nat) :
    Passes X n (.proc p) ⟨.locked, none⟩ ⟨.normal, none⟩ (waitLoop clear p k) := by
  induction k with
  | zero =>
    intro s mode _ _ hg _
    cases hg
  | succ k ih =>
    refine safe_bind (safe_reap hclear) ?_
    rintro ⟨q, fails⟩ m rfl
    cases q with
    | some q =>
      refine safe_then (safe_release _ (.inl rfl)) fun _ => ?_
      exact rfl
    | none =>
      cases fails with
      | true =>
        refine safe_then (safe_release _ (.inl rfl)) fun _ => ?_
        exact rfl
      | false =>
        refine safe_then (safe_sleep_ptable _ _) fun _ => ?_
        exact ih

lemma safe_wait (k : Nat) : Passes X n (.proc p) ⟨.normal, none⟩ ⟨.normal, none⟩ (wait p k) := by
  refine safe_then (safe_acquire _ none) fun _ => ?_
  refine safe_then (safe_waitLoop (fun q => ⟨rfl, rfl, rfl⟩) k) fun q => ?_
  exact rfl

lemma safe_wait2 (k : Nat) : Passes X n (.proc p) ⟨.normal, none⟩ ⟨.normal, none⟩ (wait2 p k) := by
  refine safe_then (safe_acquire _ none) fun _ => ?_
  refine safe_then (safe_waitLoop (fun q => ⟨rfl, rfl, rfl⟩) k) fun q => ?_
  exact rfl

lemma safe_note {e : Event} (hcreated : ∀ z pid, e ≠ .created z pid)
    (htold : ∀ s s' : Machine X, Told .tau s s' e) :
    Passes X n (.proc p) ⟨.normal, none⟩ ⟨.normal, none⟩ (note p e) := by
  intro s mode hJ hm _ _
  refine ⟨.tells (by simp) rfl rfl (fun _ => .same rfl) hcreated (htold _ _), _, ?_, rfl⟩
  rw [← hm, update_eq_self]
  exact Inv.other_lock hJ rfl rfl rfl rfl rfl

end Exit

/-! ### Runs -/

/-- Every call keeps the outline. -/
lemma safe_calls (t : Tid) (q : Code X Unit) (h : Calls n t q) :
    Passes X n t ⟨.normal, none⟩ ⟨.normal, none⟩ q := by
  cases h with
  | proc p hp call =>
    cases call with
    | forkret => exact safe_forkret
    | fork o => exact safe_then (safe_fork o) fun r => safe_note (by simp) fun _ _ => trivial
    | exit => exact safe_exit
    | wait k => exact safe_then (safe_wait k) fun r => safe_note (by simp) fun _ _ => trivial
    | wait2 k => exact safe_then (safe_wait2 k) fun r => safe_note (by simp) fun _ _ => trivial
    | kill pid => exact safe_then (safe_kill pid) fun r => safe_note (by simp) fun _ _ => trivial
    | yield => exact safe_yield
    | sleepOn chan lk delay => exact safe_sleepOn chan lk delay
    | wakeup chan => exact safe_wakeup chan
    | trap => exact safe_trap
    | updatestatistics => exact safe_updatestatistics
  | cpu c => exact safe_scheduler c
  | wakeup c chan => exact safe_wakeup chan
  | updatestatistics c => exact safe_updatestatistics

lemma boot_inv {ncpu : Nat} {x : X} (hn : 0 < n) :
    (tableOutline n).inv (boot n ncpu x) fun _ => ⟨.normal, none⟩ := by
  have hother : ∀ p, p ≠ initproc → (boot n ncpu x).proc p = {} := fun p hp => by
    simp [boot, upd_ne hp]
  have hinit : (boot n ncpu x).proc initproc =
    { state := .runnable, pid := 1, kstack := true, forkret := true } := by
    simp [boot]
  have hused : ∀ p, ((boot n ncpu x).proc p).state ≠ .unused → p = initproc := fun p hp => by
    by_contra hne
    rw [hother p hne] at hp
    exact hp rfl
  have hpar : ∀ p, ((boot n ncpu x).proc p).parent = none := fun p => by
    by_cases hp : p = initproc
    · rw [hp, hinit]
    · rw [hother p hp]
  refine ⟨rfl, ⟨?_, ?_, ?_, ?_, ?_, ?_, ?_, ?_⟩, ?_⟩
  · exact fun c p h => nomatch h
  · exact fun c c' p h => nomatch h
  · exact fun c p h => nomatch h
  · exact fun t h => absurd rfl h
  · exact fun c p h => nomatch h
  · exact fun c p h => nomatch h
  · exact fun c _ h => nomatch h
  · exact fun c p h => nomatch h
  refine ⟨fun p hp => ?_, ?_, fun p q hq => ?_, fun p h1 _ h3 => absurd (hused p h1) h3,
    fun p h => (nomatch h), fun p np b h => (nomatch h), fun p q np b b' h => (nomatch h)⟩
  · rw [hother p (by unfold initproc; have : n ≤ p := hp; omega)]
  · unfold Alive
    rw [hinit]
    simp
  · rw [hpar] at hq
    cases hq

end Xv6.Kernel
