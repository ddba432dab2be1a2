import Xv6.Kernel.Processes

/-!
# What the calls on the process table leave alone

The calls of `proc.c` do not touch the data of other code, they keep locks that other threads hold,
and they put to sleep only the process that calls them, on a channel of its own. What they tell is
about the process that calls them.
-/

namespace Xv6.Kernel

open Lib Prog

variable {X : Type}

/-- The process whose call an event tells of. -/
def Event.by : Event → Option Nat
  | .forked p _ => some p
  | .waited p _ => some p
  | .waitFailed p => some p
  | .kill p _ _ => some p
  | .forkReturned p _ => some p
  | .waitReturned p _ => some p
  | .killReturned p _ _ => some p
  | _ => none

/-- An action that leaves alone the data, the CPUs and the other locks, puts nobody to sleep and
tells nothing. -/
structure Still (s s' : Machine X) : Prop where
  log : s'.log = s.log
  data : s'.data = s.data
  on : s'.on = s.on
  lock : ∀ k, s'.lock (.other k) = s.lock (.other k)
  asleep : ∀ z, (s'.proc z).state = .sleeping →
    (s.proc z).state = .sleeping ∧ (s'.proc z).chan = (s.proc z).chan

/-- An action of thread `t` that leaves alone the data, the CPUs that execute other threads and the
locks these hold, and that puts to sleep only `t` itself, on a channel in `own`. -/
structure Frame (own : Chan → Prop) (t : Tid) (s s' : Machine X) : Prop where
  data : s'.data = s.data
  cur : ∀ c, s.cur c ≠ t → s'.cur c = s.cur c
  lock : ∀ k c, s.lock (.other k) = some c → s.cur c ≠ t → s'.lock (.other k) = some c
  asleep : ∀ z, (s'.proc z).state = .sleeping →
    ((s.proc z).state = .sleeping ∧ (s'.proc z).chan = (s.proc z).chan) ∨
      (t = .proc z ∧ own (s'.proc z).chan)

/-- Such an action, if it tells nothing of a call that has a result. -/
structure Silent (own : Chan → Prop) (t : Tid) (s s' : Machine X) : Prop
    extends Frame own t s s' where
  log : s'.log = s.log ∨ ∃ e, s'.log = e :: s.log ∧ e.by = none

section Actions

variable {s s' : Machine X} {own : Chan → Prop} {t : Tid} {p k : Nat} {f : Pcb → Pcb} {α : Type}

lemma Still.cur (h : Still s s') (c : Nat) : s'.cur c = s.cur c := by
  unfold Machine.cur
  rw [h.on]

lemma Still.frame (h : Still s s') (own : Chan → Prop) (t : Tid) : Silent own t s s' :=
  ⟨⟨h.data, fun c _ => h.cur c, fun k _ hc _ => (h.lock k).trans hc,
    fun z hz => .inl (h.asleep z hz)⟩, .inl h.log⟩

/-- The same with an event. -/
lemma Still.tells (h : Still s s') (own : Chan → Prop) (t : Tid) (e : Event) :
    Frame own t s { s' with log := e :: s.log } :=
  ⟨h.data, fun c _ => h.cur c, fun k _ hc _ => (h.lock k).trans hc,
    fun z hz => .inl (h.asleep z hz)⟩

lemma Still.of_proc_eq (hlog : s'.log = s.log) (hdata : s'.data = s.data) (hon : s'.on = s.on)
    (hlock : ∀ k, s'.lock (.other k) = s.lock (.other k)) (hproc : s'.proc = s.proc) :
    Still s s' :=
  ⟨hlog, hdata, hon, hlock, fun z hz => by rw [hproc] at hz ⊢; exact ⟨hz, rfl⟩⟩

lemma Still.refl (s : Machine X) : Still s s := .of_proc_eq rfl rfl rfl (fun _ => rfl) rfl

lemma Still.setProc (h : (f (s.proc p)).state = .sleeping →
    (s.proc p).state = .sleeping ∧ (f (s.proc p)).chan = (s.proc p).chan) :
    Still s (s.setProc p f) := by
  refine ⟨rfl, rfl, rfl, fun _ => rfl, fun z hz => ?_⟩
  by_cases hzp : z = p
  · subst hzp
    rw [setProc_same] at hz ⊢
    exact h hz
  · rw [setProc_ne hzp] at hz ⊢
    exact ⟨hz, rfl⟩

lemma Still.wakeup1 (s : Machine X) (chan : Chan) : Still s (s.wakeup1 chan) := by
  exact ⟨rfl, rfl, rfl, fun _ => rfl, fun z => (wakeup1_proc s chan z).1.asleep⟩

lemma acts_look {R : Machine X → Machine X → Prop} (hR : ∀ s, R s s) (t : Tid)
    (f : Machine X → α) : (look t f).acts R :=
  ⟨fun s _ => hR s, fun _ => trivial⟩

lemma acts_store {R : Machine X → Machine X → Prop} {l : Label} {u : Machine X → Machine X}
    (hR : ∀ s, s.runs t = true → R s (u s)) : (store t l u).acts R :=
  ⟨hR, fun _ => trivial⟩

lemma acts_frame {q : Code X α} (h : q.acts (Silent own t)) : q.acts (Frame own t) :=
  acts_mono h fun _ _ => Silent.toFrame

/-! ### Locks and switches -/

lemma still_acquire (t : Tid) : (acquire (X := X) t .ptable).acts Still := by
  refine acts_bind (acts_look Still.refl t _) fun held => ?_
  cases held with
  | true => trivial
  | false =>
    exact ⟨fun s _ => .of_proc_eq rfl rfl rfl (fun k => take_lock_ne (by simp)) rfl,
      fun _ => trivial⟩

lemma still_release (t : Tid) : (release (X := X) t .ptable).acts Still := by
  refine ⟨fun s _ => ?_, fun s => ?_⟩
  · dsimp only
    split
    · exact .of_proc_eq rfl rfl rfl (fun k => drop_lock_ne (by simp)) rfl
    · exact .refl s
  · dsimp only
    split <;> trivial

variable (own)

lemma frame_acquire (t : Tid) (lk : Lk) : (acquire (X := X) t lk).acts (Silent own t) := by
  refine acts_bind (acts_look (fun s => (Still.refl s).frame own t) t _) fun held => ?_
  cases held with
  | true => trivial
  | false =>
    refine ⟨fun s hg => ⟨⟨rfl, fun _ _ => rfl, fun k c hc _ => ?_, fun z hz => .inl ⟨hz, rfl⟩⟩,
      .inl rfl⟩, fun _ => trivial⟩
    obtain ⟨-, hfree⟩ := Bool.and_eq_true_iff.mp hg
    have hne : (.other k : Lk) ≠ lk := by
      rintro rfl
      rw [hc] at hfree
      cases hfree
    rw [take_lock_ne hne, hc]

lemma frame_release (t : Tid) (lk : Lk) : (release (X := X) t lk).acts (Silent own t) := by
  refine ⟨fun s _ => ?_, fun s => ?_⟩
  · dsimp only
    split
    next hh =>
      refine ⟨⟨rfl, fun _ _ => rfl, fun k c hc hcur => ?_, fun z hz => .inl ⟨hz, rfl⟩⟩, .inl rfl⟩
      have hne : (.other k : Lk) ≠ lk := by
        rintro rfl
        unfold Machine.holding at hh
        rw [Bool.and_eq_true, hc, beq_iff_eq] at hh
        exact hcur (cpu_some hh.2.symm).2
      rw [drop_lock_ne hne, hc]
    next => exact (Still.refl s).frame own t
  · dsimp only
    split <;> trivial

lemma frame_sched (p : Nat) : (sched (X := X) p).acts (Silent own (.proc p)) := by
  refine acts_bind (acts_look (fun s => (Still.refl s).frame own _) _ _) fun e => ?_
  cases e with
  | some e => trivial
  | none =>
    refine acts_store fun s hr => ?_
    obtain ⟨c, hc, -⟩ := exists_cpu hr
    rw [switchOut_eq hc]
    refine ⟨⟨rfl, fun d hd => ?_, fun k d hk _ => hk, fun z hz => .inl ⟨hz, rfl⟩⟩, .inl rfl⟩
    have hdc : d ≠ c := fun e => hd (e ▸ (cpu_some hc).2)
    unfold Machine.cur
    dsimp only
    rw [upd_ne hdc]

lemma frame_yield (p : Nat) : (yield (X := X) p).acts (Silent own (.proc p)) := by
  refine acts_bind (frame_acquire ..) fun _ => acts_bind (acts_store fun s _ => ?_) fun _ =>
    acts_bind (frame_sched own p) fun _ => frame_release ..
  exact Still.frame (Still.setProc (by simp)) own _

lemma frame_interrupts (p n : Nat) : (interrupts (X := X) p n).acts (Silent own (.proc p)) := by
  induction n with
  | zero => trivial
  | succ n ih => exact acts_bind (frame_yield own p) fun _ => ih

lemma frame_forkret (p : Nat) : (forkret (X := X) p).acts (Silent own (.proc p)) := by
  refine ⟨fun s _ => Still.frame ?_ own _, fun s => ?_⟩
  · dsimp only
    split
    · refine ⟨rfl, rfl, rfl, fun k => ?_, fun z hz => ?_⟩
      · exact (drop_lock_ne (by simp) : (s.drop (.proc p) .ptable).lock (.other k) = _)
      by_cases hzp : z = p
      · subst hzp
        rw [setProc_same] at hz ⊢
        exact ⟨hz, rfl⟩
      · rw [setProc_ne hzp] at hz ⊢
        exact ⟨hz, rfl⟩
    · exact .setProc fun h => ⟨h, rfl⟩
  · dsimp only
    split <;> trivial

lemma frame_schedulerLoop (c n : Nat) : ∀ i,
    (schedulerLoop (X := X) c i n).acts (Silent own (.cpu c)) := by
  induction n with
  | zero => exact fun i => trivial
  | succ n ih =>
    intro i
    refine acts_bind ⟨fun s _ => Still.frame ?_ own _, fun _ => trivial⟩ fun run => ?_
    · dsimp only
      split
      · exact .setProc (by simp)
      · exact .refl s
    · cases run with
      | false => exact ih (i + 1)
      | true =>
        refine acts_bind (acts_store fun s hr => ?_) fun _ => ih (i + 1)
        obtain ⟨d, hd, -⟩ := exists_cpu hr
        have hcur := (cpu_some hd).2
        obtain ⟨rfl, -⟩ := cur_eq_cpu.mp hcur
        refine ⟨⟨rfl, fun e he => ?_, fun k e hk _ => hk, fun z hz => .inl ⟨hz, rfl⟩⟩, .inl rfl⟩
        have hed : e ≠ d := fun h => he (h ▸ hcur)
        unfold Machine.cur
        dsimp only
        rw [upd_ne hed]

lemma frame_scheduler (c n : Nat) : (scheduler (X := X) c n).acts (Silent own (.cpu c)) :=
  acts_bind (frame_acquire ..) fun _ => acts_bind (frame_schedulerLoop own c n 0) fun _ =>
    frame_release ..

/-! ### The calls -/

variable {own} in
/-- A process stores in its own entry that it sleeps, or changes the channel. -/
lemma frame_own {chan : Chan} (hown : own chan) (hf : ∀ q, (f q).chan = chan) :
    (store (X := X) (.proc p) .tau fun s => s.setProc p f).acts (Silent own (.proc p)) := by
  refine acts_store fun s _ => ⟨⟨rfl, fun _ _ => rfl, fun k c hc _ => hc, fun z hz => ?_⟩, .inl rfl⟩
  by_cases hzp : z = p
  · subst hzp
    rw [setProc_same, hf]
    exact .inr ⟨rfl, hown⟩
  · rw [setProc_ne hzp] at hz ⊢
    exact .inl ⟨hz, rfl⟩

variable {own} in
lemma frame_sleep {chan : Chan} (hown : own chan) (hnull : own .null) (lk : Lk) (delay : Nat) :
    (sleep (X := X) p chan lk delay).acts (Silent own (.proc p)) := by
  cases lk with
  | ptable =>
    exact acts_bind (frame_own hown fun _ => rfl) fun _ => acts_bind (frame_sched own p) fun _ =>
      acts_bind (frame_own hnull fun _ => rfl) fun _ => trivial
  | other k =>
    exact acts_bind (frame_acquire ..) fun _ => acts_bind (frame_release ..) fun _ =>
      acts_bind (frame_own hown fun _ => rfl) fun _ => acts_bind (frame_sched own p) fun _ =>
      acts_bind (frame_own hnull fun _ => rfl) fun _ => acts_bind (frame_release ..) fun _ =>
      acts_bind (frame_interrupts own p delay) fun _ => frame_acquire ..

lemma frame_wakeup (t : Tid) (chan : Chan) : (wakeup (X := X) t chan).acts (Silent own t) :=
  acts_bind (frame_acquire ..) fun _ => acts_bind (acts_store fun s _ =>
    Still.frame (Still.wakeup1 s chan) own t) fun _ => frame_release ..

lemma frame_updatestatistics (t : Tid) : (updatestatistics (X := X) t).acts (Silent own t) := by
  refine acts_bind (frame_acquire ..) fun _ => acts_bind (acts_store fun s _ => ?_) fun _ =>
    frame_release ..
  refine Still.frame ?_ own t
  exact ⟨rfl, rfl, rfl, fun _ => rfl, fun z => (updatestatistics_proc s z).1.asleep⟩

lemma frame_kill (p : Nat) (pid : Int) : (kill (X := X) p pid).acts (Frame own (.proc p)) := by
  refine acts_bind (acts_frame (frame_acquire ..)) fun _ =>
    acts_bind ⟨fun s _ => ?_, fun _ => trivial⟩
    fun r => acts_bind (acts_frame (frame_release ..)) fun _ => trivial
  dsimp only
  unfold Machine.kill
  cases s.findPid pid with
  | none => exact (Still.refl s).tells ..
  | some q =>
    refine Still.tells (.setProc fun h => ?_) ..
    dsimp only at h
    split at h
    · cases h
    next hne => exact absurd h hne

lemma frame_allocLoop (p n : Nat) : ∀ i,
    (allocLoop (X := X) p i n).acts (Silent own (.proc p)) := by
  induction n with
  | zero => exact fun i => trivial
  | succ n ih =>
    intro i
    refine acts_bind ⟨fun s _ => ?_, fun _ => trivial⟩ fun found => ?_
    · dsimp only
      unfold Machine.alloc
      split
      · have hst : Still s (s.setProc i fun q => { q with
            state := .embryo, pid := s.nextpid, retime := 0, rutime := 0, stime := 0 }) :=
          .setProc (by simp)
        exact ⟨⟨rfl, fun _ _ => rfl, fun _ _ hc _ => hc, fun z hz => .inl (hst.asleep z hz)⟩,
          .inr ⟨_, rfl, rfl⟩⟩
      · exact (Still.refl s).frame ..
    · split
      · trivial
      · exact ih (i + 1)

/-- `fork` stores in the entry of its child. -/
lemma frame_setChild {l : Label} {np : Nat}
    (hf : ∀ q, (f q).state = .sleeping → q.state = .sleeping ∧ (f q).chan = q.chan) :
    (store (X := X) (.proc p) l fun s => s.setProc np f).acts (Silent own (.proc p)) :=
  acts_store fun _ _ => Still.frame (Still.setProc (hf _)) own _

lemma frame_allocproc (p n : Nat) (o : ForkOracle) :
    (allocproc (X := X) p n o).acts (Silent own (.proc p)) := by
  refine acts_bind (frame_acquire ..) fun _ => acts_bind (frame_allocLoop own p n 0) fun np =>
    acts_bind (frame_release ..) fun _ => ?_
  cases np with
  | none => trivial
  | some np =>
    refine acts_bind (frame_interrupts own p _) fun _ => ?_
    split
    · exact acts_bind (frame_setChild own fun _ h => ⟨h, rfl⟩) fun _ => trivial
    · exact acts_bind (frame_setChild own fun _ h => by cases h) fun _ => trivial

lemma frame_fork (p n : Nat) (o : ForkOracle) :
    (fork (X := X) p n o).acts (Frame own (.proc p)) := by
  refine acts_bind (acts_frame (frame_allocproc own p n o)) fun np => ?_
  cases np with
  | none => trivial
  | some np =>
    refine acts_bind (acts_frame (frame_interrupts own p _)) fun _ => ?_
    split
    · exact acts_bind (acts_frame (frame_setChild own fun _ h => ⟨h, rfl⟩)) fun _ =>
        acts_bind (acts_frame (frame_interrupts own p _)) fun _ =>
        acts_bind ⟨fun s _ => (Still.refl s).tells .., fun _ => trivial⟩ fun _ =>
        acts_bind (acts_frame (frame_setChild own fun _ h => by cases h)) fun _ => trivial
    · exact acts_frame (acts_bind (frame_setChild own fun _ h => ⟨h, rfl⟩) fun _ => acts_bind
        (frame_interrupts own p _) fun _ =>
        acts_bind (frame_setChild own fun _ h => by cases h) fun _ => trivial)

lemma frame_exit (p : Nat) : (exit (X := X) p).acts (Silent own (.proc p)) := by
  unfold exit
  split
  · trivial
  refine acts_bind (frame_acquire ..) fun _ => acts_bind (acts_store fun s _ =>
    Still.frame (Still.wakeup1 s _) own _) fun _ =>
      acts_bind (acts_store fun s _ => Still.frame ?_ own _)
    fun _ => acts_bind (acts_store fun s _ => Still.frame (Still.setProc (by simp)) own _)
    fun _ => frame_sched own p
  obtain ⟨-, -, -, h4, h5, h6, h7⟩ := abandon_fields s p
  refine ⟨h6, h7, h4, fun k => by rw [h5], fun z hz => ?_⟩
  exact (abandon_proc s p z).1.asleep hz

variable {own} in
lemma frame_waitLoop {clear : Pcb → Pcb} (hclear : ∀ q, (clear q).state = .unused)
    (hown : own (.proc p)) (hnull : own .null) (n : Nat) :
    (waitLoop (X := X) clear p n).acts (Frame own (.proc p)) := by
  induction n with
  | zero => exact ⟨fun s hg => (nomatch hg), fun s => trivial⟩
  | succ n ih =>
    refine acts_bind ⟨fun s _ => ?_, fun _ => trivial⟩ ?_
    · dsimp only
      unfold Machine.reap
      cases s.zombieChild p with
      | some z => exact Still.tells (.setProc fun h => by simp [hclear] at h) ..
      | none =>
        dsimp only
        split
        · exact (Still.refl s).tells ..
        · exact ((Still.refl s).frame ..).toFrame
    · rintro ⟨q, fails⟩
      cases q with
      | some q => exact acts_bind (acts_frame (frame_release ..)) fun _ => trivial
      | none =>
        cases fails with
        | true => exact acts_bind (acts_frame (frame_release ..)) fun _ => trivial
        | false => exact acts_bind (acts_frame (frame_sleep hown hnull _ _)) fun _ => ih

lemma frame_trap (p : Nat) : (trap (X := X) p).acts (Silent own (.proc p)) := by
  exact acts_store fun s _ =>
    ⟨Still.tells (.setProc fun h => ⟨h, rfl⟩) own _ _, .inr ⟨_, rfl, rfl⟩⟩

end Actions

/-- The channel that a call of process `p` sleeps on. -/
def Call.sleepsOn (p : Nat) : Call → Option Chan
  | .wait _ => some (.proc p)
  | .wait2 _ => some (.proc p)
  | .sleepOn chan _ _ => some chan
  | _ => none

/-- The calls that sleep only on channels in `own`. -/
inductive OwnCalls {X : Type} (own : Chan → Prop) (n : Nat) : Tid → Code X Unit → Prop
  | proc (p : Nat) (hp : p < n) (call : Call) (h : ∀ chan, call.sleepsOn p = some chan → own chan) :
    OwnCalls own n (.proc p) (call.code n p)
  | cpu (c : Nat) : OwnCalls own n (.cpu c) (scheduler c n)
  | wakeup (c : Nat) (chan : Chan) : OwnCalls own n (.cpu c) (Kernel.wakeup (.cpu c) chan)
  | updatestatistics (c : Nat) :
    OwnCalls own n (.cpu c) (Kernel.updatestatistics (.cpu c))

lemma OwnCalls.calls {own : Chan → Prop} {n : Nat} {t : Tid} {q : Code X Unit}
    (h : OwnCalls own n t q) : Calls n t q := by
  cases h with
  | proc p hp call _ => exact .proc p hp call
  | cpu c => exact .cpu c
  | wakeup c chan => exact .wakeup c chan
  | updatestatistics c => exact .updatestatistics c

/-- Every action of these calls keeps the frame. -/
lemma OwnCalls.frame {own : Chan → Prop} {n : Nat} {t : Tid} {q : Code X Unit}
    (h : OwnCalls own n t q) (hnull : own .null) : q.acts (Frame own t) := by
  have hnote : ∀ {p : Nat} {e : Event}, (note (X := X) p e).acts (Frame own (.proc p)) :=
    acts_store fun s _ => ⟨rfl, fun _ _ => rfl, fun k c hc _ => hc, fun z hz => .inl ⟨hz, rfl⟩⟩
  cases h with
  | proc p hp call hown =>
    cases call with
    | forkret => exact acts_frame (frame_forkret own p)
    | fork o => exact acts_bind (frame_fork own p n o) fun _ => hnote
    | exit => exact acts_frame (frame_exit own p)
    | wait k =>
      exact acts_bind (acts_bind (acts_frame (frame_acquire ..)) fun _ => acts_bind
        (frame_waitLoop (fun _ => rfl) (hown _ rfl) hnull k) fun _ => trivial) fun _ => hnote
    | wait2 k =>
      exact acts_bind (acts_bind (acts_frame (frame_acquire ..)) fun _ => acts_bind
        (frame_waitLoop (fun _ => rfl) (hown _ rfl) hnull k) fun _ => trivial) fun _ => hnote
    | kill pid => exact acts_bind (frame_kill own p pid) fun _ => hnote
    | yield => exact acts_frame (frame_yield own p)
    | sleepOn chan lk delay =>
      exact acts_frame (acts_bind (frame_acquire ..) fun _ => acts_bind
        (frame_sleep (hown _ rfl) hnull lk delay) fun _ => frame_release ..)
    | wakeup chan => exact acts_frame (frame_wakeup own _ chan)
    | trap => exact acts_frame (frame_trap own p)
    | updatestatistics => exact acts_frame (frame_updatestatistics own _)
  | cpu c => exact acts_frame (frame_scheduler own c n)
  | wakeup c chan => exact acts_frame (frame_wakeup own _ chan)
  | updatestatistics c => exact acts_frame (frame_updatestatistics own _)

end Xv6.Kernel
