import Xv6.Lib.Prog
import Mathlib.Logic.Function.Basic
import Mathlib.Logic.Relation

/-!
# Threads with ghost modes

Threads that share a state: a step is one action of one thread, or the start of a new call by an
idle thread. To reason about all interleavings each thread gets a mode, which exists in the proof
only and says where the thread is and what it knows. An outline is an invariant of the shared state
and of the modes; a thread is safe if each of its actions, taken in any state with the invariant,
restores the invariant for some new mode. `Threads.Safe.run` puts the threads together.
-/

namespace Xv6.Lib

open Function

variable {ι ℓ σ ε μ α β : Type}

/-- A shared state, and a thread for each index. -/
structure Threads (ι ℓ σ ε : Type) where
  state : σ
  thread : ι → Prog ℓ σ ε Unit

/-- An invariant of the shared state and the modes, what each action guarantees, and the condition
under which actions are considered. -/
structure Outline (ι ℓ σ μ : Type) where
  inv : σ → (ι → μ) → Prop
  guar : ι → ℓ → σ → σ → Prop
  cond : ι → ℓ → σ → Prop

namespace Prog

variable [DecidableEq ι]

/-- Thread `t` in mode `m` keeps the outline and ends in `Q`. -/
def safe (O : Outline ι ℓ σ μ) (t : ι) : Prog ℓ σ ε α → μ → (α → μ → Prop) → Prop
  | ret a, m, Q => Q a m
  | panic _, _, _ => True
  | act l g u k, m, Q => ∀ s mode, O.inv s mode → mode t = m → g s = true → O.cond t l s →
      O.guar t l s (u s) ∧ ∃ m', O.inv (u s) (update mode t m') ∧ (k s).safe O t m' Q

variable {O : Outline ι ℓ σ μ} {t : ι} {m : μ} {Q Q' : α → μ → Prop}

lemma safe_mono {p : Prog ℓ σ ε α} (h : p.safe O t m Q) (hQ : ∀ a m', Q a m' → Q' a m') :
    p.safe O t m Q' := by
  induction p generalizing m with
  | ret a => exact hQ a m h
  | panic e => trivial
  | act l g u k ih =>
    intro s mode hJ hm hg hc
    obtain ⟨hG, m', hJ', hk⟩ := h s mode hJ hm hg hc
    exact ⟨hG, m', hJ', ih s hk⟩

/-- The rule for a call. -/
lemma safe_bind {p : Prog ℓ σ ε α} {f : α → Prog ℓ σ ε β} {R : β → μ → Prop}
    (h : p.safe O t m Q) (hf : ∀ a m', Q a m' → (f a).safe O t m' R) :
    (p >>= f).safe O t m R := by
  induction p generalizing m with
  | ret a => exact hf a m h
  | panic e => trivial
  | act l g u k ih =>
    intro s mode hJ hm hg hc
    obtain ⟨hG, m', hJ', hk⟩ := h s mode hJ hm hg hc
    exact ⟨hG, m', hJ', ih s hk⟩

/-- The rule for a call after which the mode is known. -/
lemma safe_then {p : Prog ℓ σ ε α} {f : α → Prog ℓ σ ε β} {g : α → μ} {R : β → μ → Prop}
    (h : p.safe O t m fun a m' => m' = g a) (hf : ∀ a, (f a).safe O t (g a) R) :
    (p >>= f).safe O t m R :=
  safe_bind h fun a _ hm => hm ▸ hf a

/-! ### From one outline to a finer one -/

/-- A program that keeps an outline keeps a finer one, if its actions keep what is added. The finer
modes of the thread are those that `f` makes of the coarse ones. -/
lemma safe_lift {ν : Type} {O' : Outline ι ℓ σ ν} {π : ν → μ} {f : μ → ν} {R : σ → σ → Prop}
    {p : Prog ℓ σ ε α} (h : p.safe O t m Q) (ha : p.acts R) (hπ : ∀ m, π (f m) = m)
    (hinv : ∀ s mode, O'.inv s mode → O.inv s fun t => π (mode t))
    (hcond : ∀ l s, O'.cond t l s → O.cond t l s)
    (hstep : ∀ l s s' mode m m', O'.inv s mode → mode t = f m → R s s' → O.guar t l s s' →
      O.inv s' (update (fun t => π (mode t)) t m') →
      O'.guar t l s s' ∧ O'.inv s' (update mode t (f m'))) :
    p.safe O' t (f m) fun a m' => ∃ m0, m' = f m0 ∧ Q a m0 := by
  induction p generalizing m with
  | ret a => exact ⟨m, rfl, h⟩
  | panic e => trivial
  | act l g u k ih =>
    intro s mode hJ hm hg hc
    have hm' : (fun t => π (mode t)) t = m := by rw [← hπ m, ← hm]
    obtain ⟨hG, m', hJ', hk⟩ := h s _ (hinv s mode hJ) hm' hg (hcond l s hc)
    obtain ⟨hG', hJ''⟩ := hstep l s (u s) mode m m' hJ hm (ha.1 s hg) hG hJ'
    exact ⟨hG', f m', hJ'', ih s hk (ha.2 s)⟩

end Prog

namespace Threads

variable [DecidableEq ι] (calls : ι → Prog ℓ σ ε Unit → Prop) (cond : ι → ℓ → σ → Prop)

/-- One action of one thread, or the start of a call. Actions are taken under the condition. -/
inductive Step : Threads ι ℓ σ ε → Threads ι ℓ σ ε → Prop
  | act {c : Threads ι ℓ σ ε} (t : ι) {l : ℓ} {g : σ → Bool} {u : σ → σ}
      {k : σ → Prog ℓ σ ε Unit} (h : c.thread t = .act l g u k) (hg : g c.state = true)
      (hc : cond t l c.state) :
      Step c ⟨u c.state, update c.thread t (k c.state)⟩
  | start {c : Threads ι ℓ σ ε} (t : ι) {q : Prog ℓ σ ε Unit} (h : c.thread t = .ret ())
      (hq : calls t q) : Step c { c with thread := update c.thread t q }

/-- The states that the threads reach from `c0`. -/
abbrev Run (c0 c : Threads ι ℓ σ ε) : Prop := Relation.ReflTransGen (Step calls cond) c0 c

variable {calls cond} {O : Outline ι ℓ σ μ} {idle : μ} {c0 c c' : Threads ι ℓ σ ε}
  {t : ι}

/-- A state in which every thread is safe from its mode on. -/
def Safe (O : Outline ι ℓ σ μ) (idle : μ) (c : Threads ι ℓ σ ε) : Prop :=
  ∃ mode, O.inv c.state mode ∧ ∀ t, (c.thread t).safe O t (mode t) fun _ m => m = idle

/-- A step from a safe state leads to a safe state, with the guarantee. -/
lemma Safe.step (h : Safe O idle c) (hs : Step calls cond c c')
    (hcalls : ∀ t q, calls t q → q.safe O t idle fun _ m => m = idle)
    (hcond : ∀ t l s, cond t l s → O.cond t l s) :
    Safe O idle c' ∧ (c'.state = c.state ∨
      ∃ t l, cond t l c.state ∧ O.guar t l c.state c'.state) := by
  obtain ⟨mode, hJ, hsafe⟩ := h
  cases hs with
  | start t h hq =>
    refine ⟨⟨mode, hJ, fun t' => ?_⟩, .inl rfl⟩
    by_cases ht : t' = t
    · subst ht
      have hm := hsafe t'
      rw [h] at hm
      change (update c.thread t' _ t').safe O t' _ _
      rw [update_self, show mode t' = idle from hm]
      exact hcalls t' _ hq
    · change (update c.thread t _ t').safe O t' _ _
      rw [update_of_ne ht]
      exact hsafe t'
  | act t h hg hc =>
    have hact := hsafe t
    rw [h] at hact
    obtain ⟨hG, m', hJ', hk⟩ := hact c.state mode hJ rfl hg (hcond _ _ _ hc)
    refine ⟨⟨update mode t m', hJ', fun t' => ?_⟩, .inr ⟨t, _, hc, hG⟩⟩
    change (update c.thread t _ t').safe O t' _ _
    by_cases ht : t' = t
    · subst ht
      rw [update_self, update_self]
      exact hk
    · rw [update_of_ne ht, update_of_ne ht]
      exact hsafe t'

/-- If each call is safe from the idle mode to the idle mode, then every state reached from a safe
state is safe. -/
lemma Safe.run (h : Safe O idle c0) (hrun : Run calls cond c0 c)
    (hcalls : ∀ t q, calls t q → q.safe O t idle fun _ m => m = idle)
    (hcond : ∀ t l s, cond t l s → O.cond t l s) : Safe O idle c := by
  induction hrun with
  | refl => exact h
  | tail _ hs ih => exact (ih.step hs hcalls hcond).1

/-- A property of the shared state that the guarantees keep holds in every state reached. -/
lemma Safe.run_of_guar {P : σ → Prop} (h : Safe O idle c0) (hP : P c0.state)
    (hrun : Run calls cond c0 c)
    (hcalls : ∀ t q, calls t q → q.safe O t idle fun _ m => m = idle)
    (hcond : ∀ t l s, cond t l s → O.cond t l s)
    (hstep : ∀ s s' mode t l, O.inv s mode → P s → cond t l s → O.guar t l s s' → P s') :
    P c.state := by
  induction hrun with
  | refl => exact hP
  | tail hr hs ih =>
    have hsafe := h.run hr hcalls hcond
    obtain ⟨mode, hJ, -⟩ := id hsafe
    rcases (hsafe.step hs hcalls hcond).2 with he | ⟨t, l, hc, hG⟩
    · rw [he]
      exact ih
    · exact hstep _ _ mode t l hJ ih hc hG

/-- All threads are idle. -/
lemma safe_of_idle (hJ : O.inv c.state fun _ => idle) (hidle : ∀ t, c.thread t = .ret ()) :
    Safe O idle c :=
  ⟨fun _ => idle, hJ, fun t => by rw [hidle t]; rfl⟩

/-! ### Schedules -/

/-- A part of a schedule: `n` actions of a thread, or the start of a call. -/
inductive Move (ι ℓ σ ε : Type)
  | acts (t : ι) (n : Nat)
  | start (t : ι) (q : Prog ℓ σ ε Unit)

variable {ok : ι → ℓ → σ → Bool}

/-- One action of thread `t`, if it is allowed. -/
def actOf (ok : ι → ℓ → σ → Bool) (t : ι) (c : Threads ι ℓ σ ε) : Option (Threads ι ℓ σ ε) :=
  match c.thread t with
  | .act l g u k =>
    if g c.state && ok t l c.state then
      some ⟨u c.state, update c.thread t (k c.state)⟩
    else none
  | _ => none

/-- The actions of a thread, `n` of them. -/
def actsOf (ok : ι → ℓ → σ → Bool) (t : ι) : Nat → Threads ι ℓ σ ε → Option (Threads ι ℓ σ ε)
  | 0, c => some c
  | n + 1, c => (actOf ok t c).bind (actsOf ok t n)

/-- The state that a schedule leads to. -/
def exec (ok : ι → ℓ → σ → Bool) :
    List (Move ι ℓ σ ε) → Threads ι ℓ σ ε → Option (Threads ι ℓ σ ε)
  | [], c => some c
  | .acts t n :: ms, c => (actsOf ok t n c).bind (exec ok ms)
  | .start t q :: ms, c =>
    match c.thread t with
    | .ret () => exec ok ms { c with thread := update c.thread t q }
    | _ => none

lemma actOf_step (hok : ∀ t l s, ok t l s = true → cond t l s) (h : actOf ok t c = some c') :
    Step calls cond c c' := by
  unfold actOf at h
  split at h
  next l g u k hk =>
    split at h
    next hg =>
      obtain ⟨hg, ho⟩ := Bool.and_eq_true_iff.mp hg
      obtain rfl := Option.some.inj h
      exact .act t hk hg (hok t l c.state ho)
    next => cases h
  next => cases h

lemma actsOf_run {n : Nat} (hok : ∀ t l s, ok t l s = true → cond t l s)
    (h : actsOf ok t n c = some c') : Run calls cond c c' := by
  induction n generalizing c with
  | zero =>
    obtain rfl := Option.some.inj h
    exact .refl
  | succ n ih =>
    obtain ⟨d, hd, hr⟩ := Option.bind_eq_some_iff.mp h
    exact .head (actOf_step hok hd) (ih hr)

/-- A schedule that can be followed is a run. -/
lemma exec_run {ms : List (Move ι ℓ σ ε)} (h : exec ok ms c = some c')
    (hok : ∀ t l s, ok t l s = true → cond t l s)
    (hcalls : ∀ t q, .start t q ∈ ms → calls t q) : Run calls cond c c' := by
  induction ms generalizing c with
  | nil =>
    obtain rfl := Option.some.inj h
    exact .refl
  | cons m ms ih =>
    have hrest := fun t q hq => hcalls t q (List.mem_cons_of_mem _ hq)
    cases m with
    | acts t n =>
      obtain ⟨d, hd, hr⟩ := Option.bind_eq_some_iff.mp h
      exact (actsOf_run hok hd).trans (ih hr hrest)
    | start t q =>
      unfold exec at h
      split at h
      next hk => exact .head (.start t hk (hcalls t q List.mem_cons_self)) (ih h hrest)
      next => cases h

end Threads

end Xv6.Lib
