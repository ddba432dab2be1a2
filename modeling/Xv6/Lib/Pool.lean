import Xv6.Lib.Prog
import Xv6.Lib.Bytes

/-!
# Threads that run together

A pool is a shared state with a thread for each process; a step is one action of one thread, the
start of a new call, or an event from outside. A `Monitor` watches the labels of a thread's actions
and keeps a mode for it. Each thread is checked alone, against every state that its actions may
find; `Pool.Run.invariant` puts the threads together. -/

namespace Xv6.Lib

variable {ℓ σ ε μ α β : Type}

/-- What is demanded of a thread in mode `m`: the labels it may use, the next mode, what it may
assume of the state its action finds, and what the action must guarantee. -/
structure Monitor (ℓ σ μ : Type) where
  may : μ → ℓ → Prop
  next : μ → ℓ → μ
  rely : μ → ℓ → σ → Prop
  keeps : μ → ℓ → σ → σ → Prop

namespace Prog

/-- The thread obeys the monitor from mode `m` on, stops with no panic in `bad`, and ends in `Q`. -/
def obeys (mon : Monitor ℓ σ μ) (bad : ε → Prop) : Prog ℓ σ ε α → μ → (α → μ → Prop) → Prop
  | ret a, m, Q => Q a m
  | panic e, _, _ => ¬ bad e
  | act l g u k, m, Q => mon.may m l ∧ ∀ s, g s = true → mon.rely m l s →
      mon.keeps m l s (u s) ∧ (k s).obeys mon bad (mon.next m l) Q

variable {mon : Monitor ℓ σ μ} {bad : ε → Prop} {m : μ} {Q Q' : α → μ → Prop}

lemma obeys_bind {p : Prog ℓ σ ε α} {f : α → Prog ℓ σ ε β} {R : β → μ → Prop}
    (h : p.obeys mon bad m Q) (hf : ∀ a m', Q a m' → (f a).obeys mon bad m' R) :
    (p >>= f).obeys mon bad m R := by
  induction p generalizing m with
  | ret a => exact hf a m h
  | panic e => exact h
  | act l g u k ih => exact ⟨h.1, fun s hg hr => ⟨(h.2 s hg hr).1, ih s (h.2 s hg hr).2⟩⟩

end Prog

/-- The shared state, the thread of each process and the mode of each thread. -/
structure Pool (ℓ σ ε μ : Type) where
  state : σ
  thread : Nat → Prog ℓ σ ε Unit
  mode : Nat → μ

namespace Pool

variable (mon : Monitor ℓ σ μ) (calls : Nat → Prog ℓ σ ε Unit → Prop) (event : σ → σ → Prop)

/-- A step of the pool. The condition `cond` restricts the actions that are considered. -/
inductive Step (cond : μ → ℓ → σ → Prop) : Pool ℓ σ ε μ → Pool ℓ σ ε μ → Prop
  | act {c : Pool ℓ σ ε μ} (p : Nat) {l : ℓ} {g : σ → Bool} {u : σ → σ} {k : σ → Prog ℓ σ ε Unit}
      (h : c.thread p = .act l g u k) (hg : g c.state = true) (hc : cond (c.mode p) l c.state) :
      Step cond c ⟨u c.state, upd c.thread p (k c.state), upd c.mode p (mon.next (c.mode p) l)⟩
  | start {c : Pool ℓ σ ε μ} (p : Nat) {q : Prog ℓ σ ε Unit} (h : c.thread p = .ret ())
      (hq : calls p q) : Step cond c { c with thread := upd c.thread p q }
  | event {c : Pool ℓ σ ε μ} {s : σ} (h : event c.state s) : Step cond c { c with state := s }

/-- The pools that are reached from `c0`. -/
inductive Run (cond : μ → ℓ → σ → Prop) (c0 : Pool ℓ σ ε μ) : Pool ℓ σ ε μ → Prop
  | refl : Run cond c0 c0
  | step {c c' : Pool ℓ σ ε μ} (h : Run cond c0 c) (hs : Step mon calls event cond c c') :
      Run cond c0 c'

variable {mon calls event} {bad : ε → Prop} {cond : μ → ℓ → σ → Prop} {J : σ → (Nat → μ) → Prop}
  {idle : μ} {c0 c : Pool ℓ σ ε μ}

/-- If each call obeys the monitor from the idle mode to the idle mode, and what the monitor demands
of actions keeps the invariant `J`, then `J` holds in every state reached and every thread obeys the
monitor from its mode on. -/
lemma Run.invariant (hrun : Run mon calls event cond c0 c)
    (hcalls : ∀ p q, calls p q → q.obeys mon bad idle fun _ m => m = idle)
    (hrely : ∀ s mode p l, J s mode → cond (mode p) l s → mon.rely (mode p) l s)
    (hkeeps : ∀ s s' mode p l, J s mode → mon.may (mode p) l → mon.keeps (mode p) l s s' →
      J s' (upd mode p (mon.next (mode p) l)))
    (hevent : ∀ s s' mode, J s mode → event s s' → J s' mode)
    (hJ : J c0.state c0.mode) (hidle : ∀ p, c0.thread p = .ret () ∧ c0.mode p = idle) :
    J c.state c.mode ∧ ∀ p, (c.thread p).obeys mon bad (c.mode p) fun _ m => m = idle := by
  induction hrun with
  | refl =>
    refine ⟨hJ, fun p => ?_⟩
    rw [(hidle p).1]
    exact (hidle p).2
  | step _ hs ih =>
    obtain ⟨hJ, hobeys⟩ := ih
    cases hs with
    | event h => exact ⟨hevent _ _ _ hJ h, hobeys⟩
    | start p h hq =>
      refine ⟨hJ, fun q => ?_⟩
      by_cases hqp : q = p
      · subst hqp
        have hmode := hobeys q
        rw [h] at hmode
        change Prog.obeys mon bad (upd _ _ _ q) _ _
        rw [upd_same, hmode]
        exact hcalls q _ hq
      · change Prog.obeys mon bad (upd _ _ _ q) _ _
        rw [upd_ne hqp]
        exact hobeys q
    | act p h hg hc =>
      have hp := hobeys p
      rw [h] at hp
      obtain ⟨hkeep, hnext⟩ := hp.2 _ hg (hrely _ _ p _ hJ hc)
      refine ⟨hkeeps _ _ _ p _ hJ hp.1 hkeep, fun q => ?_⟩
      change Prog.obeys mon bad (upd _ _ _ q) (upd _ _ _ q) _
      by_cases hqp : q = p
      · subst hqp
        rw [upd_same, upd_same]
        exact hnext
      · rw [upd_ne hqp, upd_ne hqp]
        exact hobeys q

/-! ### One thread at a time -/

/-- All actions of the run from `s`, alone and from mode `m`, meet a condition. -/
def meets (next : μ → ℓ → μ) (cond : μ → ℓ → σ → Bool) : Prog ℓ σ ε α → μ → σ → Bool
  | .ret _, _, _ => true
  | .panic _, _, _ => true
  | .act l _ u k, m, s => cond m l s && meets next cond (k s) (next m l) (u s)

/-- One thread of the pool runs to its end. -/
lemma Run.finish (check : μ → ℓ → σ → Bool) (hcheck : ∀ m l s, check m l s = true → cond m l s)
    (q : Prog ℓ σ ε Unit) {p : Nat} {s : σ} (hrun : Run mon calls event cond c0 c)
    (hq : c.thread p = q) (hm : meets mon.next check q (c.mode p) c.state = true)
    (hr : q.run c.state = .ok () s) :
    ∃ mode, Run mon calls event cond c0 ⟨s, upd c.thread p (.ret ()), mode⟩ := by
  induction q generalizing c with
  | ret a =>
    cases hr
    refine ⟨c.mode, ?_⟩
    rw [show upd c.thread p (.ret ()) = c.thread from hq ▸ upd_eq_self c.thread p]
    exact hrun
  | panic e => cases hr
  | act l g u k ih =>
    rw [Prog.run_act] at hr
    cases hg : g c.state with
    | false => rw [hg] at hr; cases hr
    | true =>
      rw [hg] at hr
      rw [meets, Bool.and_eq_true] at hm
      obtain ⟨mode, h⟩ := ih c.state (hrun.step (.act p hq hg (hcheck _ _ _ hm.1))) (upd_same _ _ _)
        (by simpa using hm.2) hr
      exact ⟨mode, by simpa using h⟩

lemma meets_true (next : μ → ℓ → μ) (q : Prog ℓ σ ε α) (m : μ) (s : σ) :
    meets next (fun _ _ _ => true) q m s = true := by
  induction q generalizing m s with
  | ret a => rfl
  | panic e => rfl
  | act l g u k ih => exact ih s _ _

/-- One thread of the pool runs into a panic. -/
lemma Run.panics (q : Prog ℓ σ ε Unit) {p : Nat} {s : σ} {e : ε}
    (hrun : Run mon calls event (fun _ _ _ => True) c0 c) (hq : c.thread p = q)
    (hr : q.run c.state = .stop (some e) s) :
    ∃ c', Run mon calls event (fun _ _ _ => True) c0 c' ∧ c'.thread p = .panic e := by
  induction q generalizing c with
  | ret a => cases hr
  | panic e' =>
    cases hr
    exact ⟨c, hrun, hq⟩
  | act l g u k ih =>
    rw [Prog.run_act] at hr
    cases hg : g c.state with
    | false => rw [hg] at hr; cases hr
    | true =>
      rw [hg] at hr
      exact ih c.state (hrun.step (.act p hq hg trivial)) (upd_same _ _ _) hr

end Pool

end Xv6.Lib
