import Xv6.Kernel.Monitor
import Xv6.Kernel.Pids

/-!
# No lost wakeup

Waiters that sleep on a channel until a condition holds, and wakers that make it hold and then wake
the waiters up: the pattern behind inode locks, buffer locks, the log and `wait`. The condition is
any test of data that a lock protects, and the lock may be `ptable.lock` itself.
-/

namespace Xv6.Kernel

open Lib Prog Monitor Function

variable {X : Type}

/-- The data of the pattern, with the wakers that have changed the data and that have not yet gone
over the process table to wake the waiters up. -/
structure Resource (X : Type) where
  val : X
  waking : Tid → Bool

/-- What waiters and wakers share. -/
structure Pattern (X : Type) where
  chan : Chan
  lk : Lk
  ready : X → Bool
  chan_ne : chan ≠ .null

namespace Pattern

variable (W : Pattern X)

/-- The loop of a waiter; at most `turns` turns are considered, with timer interrupts after each
`sleep`. -/
def await (p : Nat) (delay : Nat → Nat) : Nat → Code (Resource X) Unit
  | 0 => unfinished
  | turns + 1 => do
    let ready ← look (.proc p) fun s => W.ready s.data.val
    if ready then pure ()
    else
      sleep p W.chan W.lk (delay turns)
      await p delay turns

/-- A waiter: it changes the data when the condition holds. -/
def waiter (p : Nat) (take : X → X) (delay : Nat → Nat) (turns : Nat) :
    Code (Resource X) Unit := do
  acquire (.proc p) W.lk
  W.await p delay turns
  access (.proc p) .tau (fun s => { s.data with val := take s.data.val }) fun _ => ()
  release (.proc p) W.lk

/-- The waker has gone over the process table. -/
def woken (t : Tid) (d : Resource X) : Resource X :=
  { d with waking := update d.waking t false }

/-- A waker: it changes the data and calls `wakeup` before or after it releases the lock. With
`ptable.lock` it calls `wakeup1`. -/
def waker (t : Tid) (set : X → X) (early : Bool) : Code (Resource X) Unit := do
  acquire t W.lk
  access t .tau
    (fun s => { val := set s.data.val, waking := update s.data.waking t true })
    fun _ => ()
  if W.lk = .ptable then
    scan t W.chan (woken t)
    release t W.lk
  else if early then
    wakeupNote t W.chan (woken t)
    release t W.lk
  else
    release t W.lk
    wakeupNote t W.chan (woken t)

/-- What threads may do: wait, wake, or anything else but sleep on the channel. -/
inductive Calls (n : Nat) : Tid → Code (Resource X) Unit → Prop
  | waiter (p : Nat) (take : X → X) (delay : Nat → Nat) (turns : Nat) :
    Calls n (.proc p) (W.waiter p take delay turns)
  | waker (t : Tid) (set : X → X) (early : Bool) : Calls n t (W.waker t set early)
  | other {t : Tid} {q : Code (Resource X) Unit} (h : OwnCalls (· ≠ W.chan) n t q) : Calls n t q

/-- The monitor of the pattern. A thread that owes a `wakeup` is noted as waking. -/
def monitor : Monitor (Resource X) X Unit where
  lk := W.lk
  val := Resource.val
  ok _ := True
  due d chan := decide (chan = W.chan) && W.ready d.val
  own chan := chan ≠ W.chan
  due_own d chan h := by simp [h]
  own_null := W.chan_ne.symm
  knows t sp _ d := ∀ chan, sp.owes chan → d.waking t = true
  knows_spot _ _ _ _ _ h _ chan ho := absurd ho (h chan)
  may _ _ := True

section Safe

variable {W} {n : Nat} {t : Tid} {p : Nat} {x : X}

lemma due_eq {d : Resource X} {chan : Chan} (h : W.monitor.due d chan = true) :
    chan = W.chan ∧ W.ready d.val = true := by
  simpa [monitor] using h

lemma not_owes {X : Type} {x : X} (chan : Chan) : ¬(Spot.inside x none).owes chan := by
  rintro (⟨y, hy⟩ | hy) <;> cases hy

lemma safe_await (delay : Nat → Nat) (turns : Nat) : ∀ x,
    (W.await p delay turns).safe (W.monitor.outline n Always) (.proc p)
      (W.monitor.within x none ()) fun _ m =>
        ∃ x, W.ready x = true ∧ m = W.monitor.within x none () := by
  induction turns with
  | zero =>
    intro x s mode _ _ hg _
    cases hg
  | succ turns ih =>
    intro x
    refine safe_bind (Q := fun ready m => ready = W.ready x ∧ m = W.monitor.within x none ())
      (Monitor.safe_look fun s mode hJ hm => ?_) ?_
    · have hx : (mode (.proc p)).spot = .inside x none := by rw [hm]; rfl
      exact ⟨by rw [show s.data.val = x from (hJ.2.inside _ _ _ hx).2], rfl⟩
    · rintro ready m ⟨hr, rfl⟩
      cases ready with
      | true => exact ⟨x, hr.symm, rfl⟩
      | false =>
        refine safe_bind (safe_sleep (P := W.monitor) (fun dd _ hval => ?_) trivial _) ?_
        · by_contra hdue
          have h2 := (due_eq (by simpa using hdue)).2
          rw [show dd.val = x from hval, ← hr] at h2
          cases h2
        · rintro - m ⟨dd, rfl, -⟩
          exact ih _

lemma safe_waiter (take : X → X) (delay : Nat → Nat) (turns : Nat) :
    (W.waiter p take delay turns).safe (W.monitor.outline n Always) (.proc p) (off ())
      fun _ m => m = off () := by
  refine safe_bind (Monitor.safe_acquire (P := W.monitor)) ?_
  rintro - m ⟨dd, rfl, -⟩
  refine safe_bind (safe_await delay turns _) ?_
  rintro - m ⟨x, hx, rfl⟩
  refine safe_bind (Q := fun _ m => m = W.monitor.within (take x) none ()) (safe_access ?_) ?_
  · -- the condition held before, so that it holds now is no new reason to wake up
    intro s _ hval _ _
    have hval : s.data.val = x := hval
    refine ⟨take x, none, (), ⟨trivial, by rw [← hval]; rfl, fun chan hdue => .inl ?_,
      fun _ h => (nomatch h), fun c ho => absurd ho (not_owes c), fun t' sp κ _ _ hk => hk⟩, rfl⟩
    simp [monitor, (due_eq hdue).1, hval, hx]
  · rintro - m rfl
    exact Monitor.safe_release (P := W.monitor) (.inl rfl) (fun _ _ _ _ h => nomatch h)
      fun dd _ => W.monitor.knows_spot _ _ _ (.inside (take x) none) _
        (by rintro c (⟨y, hy⟩ | hy) <;> cases hy) fun c ho => absurd ho (not_owes c)

/-- The waker notes that it has gone over the table. -/
lemma woken_note (t : Tid) (x : X) (dd : Resource X) (hval : dd.val = x) :
    W.monitor.Note t dd (woken t dd) x () :=
  ⟨trivial, hval, fun _ h => h, fun c ho => absurd ho (not_owes c), fun t' sp κ ht _ hk c ho => by
    change update dd.waking t false t' = true
    rw [update_of_ne ht]
    exact hk c ho⟩

/-- A waker owes the `wakeup` from when it sets the condition. -/
lemma safe_waker (set : X → X) (early : Bool) :
    (W.waker t set early).safe (W.monitor.outline n Always) t (off ())
      fun _ m => m = off () := by
  refine safe_bind (Monitor.safe_acquire (P := W.monitor)) ?_
  rintro - m ⟨dd, rfl, -⟩
  refine safe_bind (Q := fun _ m => m = W.monitor.within (set dd.val) (some W.chan) ())
    (safe_access ?_) ?_
  · intro s _ hval _ _
    have hval : s.data.val = dd.val := hval
    refine ⟨set dd.val, some W.chan, (), ⟨trivial, by rw [← hval]; rfl, fun chan hdue => .inr ?_,
      fun _ h => (nomatch h), fun c _ => ?_, fun t' sp κ ht _ hk c ho => ?_⟩, rfl⟩
    · rw [(due_eq hdue).1]
    · change update s.data.waking t true t = true
      rw [update_self]
    · change update s.data.waking t true t' = true
      rw [update_of_ne ht]
      exact hk c ho
  · rintro - m rfl
    have hdone : ∀ x, (release t W.lk).safe (W.monitor.outline n Always) t
        (W.monitor.within x none ()) fun _ m => m = off () := fun x =>
      Monitor.safe_release (P := W.monitor) (.inl rfl) (fun _ _ _ _ h => nomatch h)
        fun dd _ => W.monitor.knows_spot _ _ _ (.inside x none) _
          (by rintro c (⟨y, hy⟩ | hy) <;> cases hy) fun c ho => absurd ho (not_owes c)
    split
    next hlk =>
      have hin : ∀ d, W.monitor.within (set dd.val) d () =
          ⟨⟨.locked, none⟩, .inside (set dd.val) d, ()⟩ := fun d => by
        unfold within phase
        rw [show W.monitor.lk = .ptable from hlk]
      rw [hin]
      refine safe_then (safe_scan (.inr rfl) fun d _ hval _ => woken_note t _ d hval) fun _ => ?_
      have := hdone (set dd.val)
      rw [hin] at this
      exact this
    next hlk =>
      split
      · refine safe_then (safe_wakeupNote (P := W.monitor) hlk (.inr rfl)
          fun d _ hval _ => woken_note t _ d hval) fun _ => ?_
        exact hdone _
      · refine safe_bind (Q := fun _ m => m = ⟨⟨.normal, none⟩, .owing W.chan, ()⟩)
          (Monitor.safe_release (P := W.monitor) (.inr ⟨W.chan, rfl⟩) ?_ ?_) ?_
        · rintro d _ _ chan hc -
          rw [Option.some.inj hc]
        · exact fun d hk c _ => hk W.chan (.inl ⟨_, rfl⟩)
        · rintro - m rfl
          refine safe_wakeupNote_owing fun d _ hk => ⟨trivial, rfl, fun _ h => h, ?_, ?_⟩
          · rintro c (⟨y, hy⟩ | hy) <;> cases hy
          · intro t' sp κ ht hk c ho
            change update d.waking t false t' = true
            rw [update_of_ne ht]
            exact hk c ho

lemma safe_patternCalls (t : Tid) (q : Code (Resource X) Unit) (h : W.Calls n t q) :
    q.safe (W.monitor.outline n Always) t (off ()) fun _ m => m = off () := by
  cases h with
  | waiter p take delay turns => exact safe_waiter take delay turns
  | waker t set early => exact safe_waker set early
  | other h => exact safe_ownCalls (P := W.monitor) h

end Safe

/-- Before any call: nobody sleeps and nobody is waking anybody. -/
def start (n ncpu : Nat) (x : X) : Threads Tid Label (Machine (Resource X)) Panic :=
  Kernel.start n ncpu { val := x, waking := fun _ => false }

end Pattern

lemma boot_not_sleeping {n ncpu : Nat} {x : X} (p : Nat) :
    ((boot n ncpu x).proc p).state ≠ .sleeping := by
  by_cases hp : p = initproc
  · simp [boot, hp]
  · simp [boot, upd_ne hp]

/-- No wakeup is lost: if a process sleeps on the channel and the condition holds, then some waker
has changed the data, has not returned, and has yet to finish its `wakeup`. -/
theorem no_lost_wakeup (W : Pattern X) {n ncpu : Nat} {x : X} (hn : 0 < n)
    {c : Threads Tid Label (Machine (Resource X)) Panic}
    (hrun : Threads.Run (W.Calls n) Always (Pattern.start n ncpu x) c) (p : Nat)
    (hsleep : (c.state.proc p).state = .sleeping) (hchan : (c.state.proc p).chan = W.chan)
    (hready : W.ready c.state.data.val = true) :
    ∃ t, c.state.data.waking t = true ∧ c.thread t ≠ .ret () := by
  have hstart : (Pattern.start n ncpu x).Safe (W.monitor.outline n Always) (off ()) := by
    refine Threads.safe_of_idle ⟨boot_inv hn, ?_⟩ fun _ => rfl
    refine ⟨fun t y d h => (nomatch h), trivial, fun p h => absurd h (boot_not_sleeping p),
      fun t chan h => (nomatch h), fun t chan ho => ?_, fun p h => absurd h (boot_not_sleeping p)⟩
    rcases ho with ⟨y, hy⟩ | hy <;> cases hy
  obtain ⟨mode, ⟨-, hM⟩, hsafe⟩ := hstart.run hrun Pattern.safe_patternCalls fun _ _ _ h => h
  obtain ⟨t, ht⟩ := hM.asleep p hsleep (by simp [Pattern.monitor, hchan, hready])
  refine ⟨t, hM.knows t _ ht, fun hret => ?_⟩
  -- a thread that has returned owes nothing
  have hoff := hsafe t
  rw [hret] at hoff
  rw [show mode t = off () from hoff] at ht
  rcases ht with ⟨y, hy⟩ | hy <;> cases hy

/-- A waker on the second CPU has made the condition true, and init sleeps. -/
theorem no_lost_wakeup_pending : ∃ c : Threads Tid Label (Machine (Resource Bool)) Panic,
    (c.state.proc initproc).state = .sleeping ∧ (c.state.proc initproc).chan = .addr 0 ∧
    c.state.data.val = true ∧ ∃ t, c.state.data.waking t = true ∧ c.thread t ≠ .ret () := by
  let W : Pattern Bool := ⟨.addr 0, .other 0, id, by simp⟩
  obtain ⟨c, hc, h1, h2, h3⟩ : ∃ c, Threads.exec (fun _ _ _ => true)
      [.start (.cpu 0) (scheduler 0 64), .acts (.cpu 0) 4,
        .start (.proc initproc) (forkret initproc), .acts (.proc initproc) 1,
        .start (.proc initproc) (W.waiter initproc id (fun _ => 0) 1), .acts (.proc initproc) 9,
        .start (.cpu 1) (W.waker (.cpu 1) (fun _ => true) false), .acts (.cpu 1) 3]
      (Pattern.start 64 8 false) = some c ∧ (c.state.proc initproc).state = .sleeping ∧
      (c.state.proc initproc).chan = W.chan ∧ W.ready c.state.data.val = true :=
    ⟨_, rfl, rfl, rfl, rfl⟩
  have hrun : Threads.Run (W.Calls 64) Always (Pattern.start 64 8 false) c := by
    refine Threads.exec_run hc (fun _ _ _ _ => trivial) fun t q h => ?_
    simp only [List.mem_cons, reduceCtorEq, false_or, or_false, List.not_mem_nil,
      Threads.Move.start.injEq] at h
    rcases h with ⟨rfl, rfl⟩ | ⟨rfl, rfl⟩ | ⟨rfl, rfl⟩ | ⟨rfl, rfl⟩
    · exact .other (.cpu 0)
    · exact .other (.proc initproc (by decide) .forkret fun _ h => nomatch h)
    · exact .waiter ..
    · exact .waker ..
  exact ⟨c, h1, h2, h3, no_lost_wakeup W (by decide) hrun initproc h1 h2 h3⟩

end Xv6.Kernel
