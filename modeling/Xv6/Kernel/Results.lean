import Xv6.Kernel.Frame

/-!
# What calls return

`wait`, `wait2` and `kill` find their result under `ptable.lock` and return it after they have
released the lock. `fork` returns the pid that it has read, after it has let its child run. The
action that finds something tells it, and so does the process that gets the result. Here: the
process gets what its last call found, and gets it once.
-/

namespace Xv6.Kernel

open Lib Prog

variable {X : Type}

/-- What is left to be returned after an event. -/
def Event.found : Event → Option Event
  | .forkReturned _ _ => none
  | .waitReturned _ _ => none
  | .killReturned _ _ _ => none
  | e => some e

/-- What a call of process `p` has found and not returned yet. -/
def pending (p : Nat) : List Event → Option Event
  | [] => none
  | e :: log => if e.by = some p then e.found else pending p log

/-- The events come in turn: a call finds something when nothing is left to be returned, and it
returns what it found. -/
def InTurn (log : List Event) : Event → Prop
  | .forked p _ => pending p log = none
  | .waited p _ => pending p log = none
  | .waitFailed p => pending p log = none
  | .kill p _ _ => pending p log = none
  | .forkReturned p r =>
    pending p log = some (.forked p r) ∨ r = -1 ∧ pending p log = none
  | .waitReturned p r =>
    pending p log = some (.waited p r) ∨ r = -1 ∧ pending p log = some (.waitFailed p)
  | .killReturned p pid r => pending p log = some (.kill p pid r)
  | _ => True

/-- The mode of a process is what its call has found. -/
def resultsOutline : Outline Tid Label (Machine X) (Option Event) where
  inv s mode := ∀ p, mode (.proc p) = pending p s.log
  guar _ _ s s' := s'.log = s.log ∨ ∃ e, s'.log = e :: s.log ∧ InTurn s.log e
  cond _ _ _ := True

section Safe

variable {own : Chan → Prop} {t : Tid} {p n : Nat} {α : Type} {s s' : Machine X} {e : Event}
  {m : Option Event} {mode : Tid → Option Event}

/-- Process `p` tells an event. -/
lemma results_tell (hJ : resultsOutline.inv s mode) (hlog : s'.log = e :: s.log)
    (hby : e.by = some p) :
    resultsOutline.inv s' (Function.update mode (.proc p) e.found) := by
  intro q
  rw [hlog, pending, hby]
  by_cases hq : q = p
  · rw [hq, Function.update_self, if_pos rfl]
  · rw [Function.update_of_ne (by simpa using hq), if_neg (fun h => hq (Option.some.inj h).symm)]
    exact hJ q

/-- Code that tells nothing of such calls. -/
lemma safe_silent {q : Code X α} (h : q.acts (Silent own t)) :
    q.safe resultsOutline t m fun _ m' => m' = m := by
  induction q with
  | ret a => rfl
  | panic e => trivial
  | act l g u k ih =>
    intro s mode hJ hm hg _
    refine ⟨?_, m, fun p => ?_, ih s (h.2 s)⟩
    · rcases (h.1 s hg).log with he | ⟨e, he, hby⟩
      · exact .inl he
      · exact .inr ⟨e, he, by cases e <;> trivial⟩
    · rw [← hm, Function.update_eq_self, hJ p]
      rcases (h.1 s hg).log with he | ⟨e, he, hby⟩ <;> rw [he]
      rw [pending, hby, if_neg (by simp)]

lemma results_note (hby : e.by = some p) (hfound : e.found = none)
    (hm : ∀ log, pending p log = m → InTurn log e) :
    (note (X := X) p e).safe resultsOutline (.proc p) m fun _ m' => m' = none := by
  intro s mode hJ hmode _ _
  exact ⟨.inr ⟨e, rfl, hm _ (by rw [← hJ p, hmode])⟩, none, hfound ▸ results_tell hJ rfl hby, rfl⟩

/-- `kill` returns what its scan found. -/
lemma results_kill (pid : Int) :
    (kill (X := X) p pid).safe resultsOutline (.proc p) none fun r m =>
      m = some (.kill p pid r) := by
  refine safe_then (safe_silent (frame_acquire (fun _ => True) ..)) fun _ =>
    safe_then (g := fun r => some (.kill p pid r)) ?_ fun r => safe_bind
      (safe_silent (m := some (.kill p pid r)) (frame_release (fun _ => True) ..)) fun _ _ hm => hm
  intro s mode hJ hm _ _
  have hlog := kill_log s p pid
  exact ⟨.inr ⟨_, hlog, by rw [InTurn, ← hJ p, hm]⟩, _, results_tell hJ hlog rfl, rfl⟩

/-- `fork` returns the pid it has read, or -1 when it has read none. -/
lemma results_fork (o : ForkOracle) :
    (fork (X := X) p n o).safe resultsOutline (.proc p) none fun r m =>
      m = some (.forked p r) ∨ r = -1 ∧ m = none := by
  refine safe_then (safe_silent (frame_allocproc (fun _ => True) p n o)) fun np => ?_
  cases np with
  | none => exact .inr ⟨rfl, rfl⟩
  | some np =>
    refine safe_then (safe_silent (frame_interrupts (fun _ => True) p _)) fun _ => ?_
    have hset : ∀ {l : Label} {f : Pcb → Pcb} {m : Option Event},
        (∀ q, (f q).state = .sleeping → q.state = .sleeping ∧ (f q).chan = q.chan) →
        (store (X := X) (.proc p) l fun s => s.setProc np f).safe resultsOutline (.proc p) m
          fun _ m' => m' = m := fun hf => safe_silent (frame_setChild (fun _ => True) hf)
    split
    · refine safe_then (hset fun _ h => ⟨h, rfl⟩) fun _ => ?_
      refine safe_then (safe_silent (frame_interrupts (fun _ => True) p _)) fun _ => ?_
      refine safe_then (g := fun pid => some (.forked p pid)) ?_ fun pid => ?_
      · intro s mode hJ hm _ _
        exact ⟨.inr ⟨_, rfl, by rw [InTurn, ← hJ p, hm]⟩, _, results_tell hJ rfl rfl, rfl⟩
      · exact safe_then (hset fun _ h => by cases h) fun _ => .inl rfl
    · refine safe_then (hset fun _ h => ⟨h, rfl⟩) fun _ => ?_
      refine safe_then (safe_silent (frame_interrupts (fun _ => True) p _)) fun _ => ?_
      exact safe_then (hset fun _ h => by cases h) fun _ => .inr ⟨rfl, rfl⟩

/-- What `wait` has found: a zombie, or that it fails. -/
def foundBy (p : Nat) : Option Pcb → Event
  | some q => .waited p q.pid
  | none => .waitFailed p

lemma results_waitLoop {clear : Pcb → Pcb} (n : Nat) :
    (waitLoop (X := X) clear p n).safe resultsOutline (.proc p) none
      fun r m => m = some (foundBy p r) := by
  induction n with
  | zero => exact fun s mode hJ hm hg _ => (nomatch hg)
  | succ n ih =>
    have hrelease : ∀ r : Option Pcb,
        (do release (.proc p) .ptable; pure r : Code X (Option Pcb)).safe
        resultsOutline (.proc p) (some (foundBy p r)) fun r m => m = some (foundBy p r) := fun r =>
      safe_bind (safe_silent (frame_release (fun _ => True) ..)) fun _ _ hm => hm
    intro s mode hJ hm _ _
    have hturn : pending p s.log = none := by rw [← hJ p, hm]
    dsimp only
    unfold Machine.reap
    cases s.zombieChild p with
    | some z =>
      exact ⟨.inr ⟨_, rfl, hturn⟩, _, results_tell hJ rfl rfl, hrelease (some (s.proc z))⟩
    | none =>
      cases s.waitFails p with
      | true => exact ⟨.inr ⟨_, rfl, hturn⟩, _, results_tell hJ rfl rfl, hrelease none⟩
      | false =>
        have hsleep : (sleep (X := X) p (.proc p) .ptable 0 >>= fun _ => waitLoop clear p n).safe
            resultsOutline (.proc p) none fun r m => m = some (foundBy p r) :=
          safe_then (safe_silent (@frame_sleep X (fun _ => True) p _ trivial trivial _ _)) fun _ =>
            ih
        exact ⟨.inl rfl, none, by rwa [← hm, Function.update_eq_self], hsleep⟩

/-- `wait` and `wait2` return the pid of what they found. -/
lemma results_wait {β : Type} {clear : Pcb → Pcb} {f : Option Pcb → β} {pid : β → Int} (n : Nat)
    (hf : ∀ q, pid (f q) = (q.map Pcb.pid).getD (-1)) :
    (do acquire (.proc p) .ptable; let q ← waitLoop clear p n; pure (f q) : Code X β).safe
      resultsOutline (.proc p) none fun r m =>
        (note (X := X) p (.waitReturned p (pid r))).safe resultsOutline (.proc p) m
          fun _ m => m = none := by
  refine safe_then (safe_silent (frame_acquire (fun _ => True) ..)) fun _ =>
    safe_then (results_waitLoop n) fun q => ?_
  refine results_note rfl rfl fun log hlog => ?_
  rw [hf q]
  cases q with
  | some q => exact .inl hlog
  | none => exact .inr ⟨rfl, hlog⟩

/-- Every call returns what it found. -/
lemma results_calls (t : Tid) (q : Code X Unit) (h : Calls n t q) :
    q.safe resultsOutline t none fun _ m => m = none := by
  cases h with
  | proc p hp call =>
    cases call with
    | forkret => exact safe_silent (frame_forkret (fun _ => True) p)
    | fork o =>
      refine safe_bind (results_fork o) fun r m hr => results_note rfl rfl fun log hlog => ?_
      rwa [← hlog] at hr
    | exit => exact safe_silent (frame_exit (fun _ => True) p)
    | wait k => exact safe_bind (results_wait k fun _ => rfl) fun r m hr => hr
    | wait2 k => exact safe_bind (results_wait k fun _ => rfl) fun r m hr => hr
    | kill pid => exact safe_then (results_kill pid) fun r => results_note rfl rfl fun _ h => h
    | yield => exact safe_silent (frame_yield (fun _ => True) p)
    | sleepOn chan lk delay =>
      exact safe_silent (acts_bind (frame_acquire (fun _ => True) ..) fun _ => acts_bind
        (frame_sleep trivial trivial lk delay) fun _ => frame_release ..)
    | wakeup chan => exact safe_silent (frame_wakeup (fun _ => True) _ chan)
    | trap => exact safe_silent (frame_trap (fun _ => True) p)
    | updatestatistics => exact safe_silent (frame_updatestatistics (fun _ => True) _)
  | cpu c => exact safe_silent (frame_scheduler (fun _ => True) c n)
  | wakeup c chan => exact safe_silent (frame_wakeup (fun _ => True) _ chan)
  | updatestatistics c => exact safe_silent (frame_updatestatistics (fun _ => True) _)

end Safe

end Xv6.Kernel
