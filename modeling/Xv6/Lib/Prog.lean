import Mathlib.Algebra.BigOperators.Fin

/-!
# Programs of atomic actions

A `Prog` is the control flow of one thread: a tree of atomic actions on a shared state, each
with a label, a guard it waits for, an update, and a continuation that depends on the state the
action found. The same tree has two readings: `run` executes it alone, and the interleaving
semantics of `Xv6.Lib.Pool` executes many of them together.
-/

namespace Xv6.Lib

/-- A thread of atomic actions over states `σ`, with labels `ℓ`, panics `ε` and result `α`. -/
inductive Prog (ℓ σ ε α : Type) : Type
  | ret (a : α)
  | panic (e : ε)
  | act (l : ℓ) (guard : σ → Bool) (upd : σ → σ) (next : σ → Prog ℓ σ ε α)

/-- How a thread ends when it runs alone. `stop none` is a thread that waits for ever. -/
inductive Res (σ ε α : Type) : Type
  | ok (a : α) (s : σ)
  | stop (e : Option ε) (s : σ)

variable {ℓ σ ε α β γ : Type}

/-- Continue a run that has ended with a result. -/
def Res.andThen : Res σ ε α → (α → σ → Res σ ε β) → Res σ ε β
  | .ok a s, f => f a s
  | .stop e s, _ => .stop e s

namespace Prog

/-- Sequential composition. -/
def bind : Prog ℓ σ ε α → (α → Prog ℓ σ ε β) → Prog ℓ σ ε β
  | ret a, f => f a
  | panic e, _ => panic e
  | act l g u k, f => act l g u fun s => bind (k s) f

instance : Monad (Prog ℓ σ ε) where
  pure := ret
  bind := bind

@[simp] lemma ret_bind (a : α) (f : α → Prog ℓ σ ε β) : (ret a >>= f) = f a := rfl

@[simp] lemma panic_bind (e : ε) (f : α → Prog ℓ σ ε β) : (panic e >>= f) = panic e := rfl

@[simp] lemma act_bind (l : ℓ) (g : σ → Bool) (u : σ → σ) (k : σ → Prog ℓ σ ε α)
    (f : α → Prog ℓ σ ε β) : (act l g u k >>= f) = act l g u fun s => k s >>= f := rfl

instance : LawfulMonad (Prog ℓ σ ε) := LawfulMonad.mk' _
  (by
    intro α x
    change x.bind (ret ∘ id) = x
    induction x with
    | ret a => rfl
    | panic e => rfl
    | act l g u k ih => simp only [bind, ih])
  (fun _ _ => rfl)
  (by
    intro α β γ x f g
    change (x.bind f).bind g = x.bind fun a => (f a).bind g
    induction x with
    | ret a => rfl
    | panic e => rfl
    | act l g u k ih => simp only [bind, ih])

/-- Run a thread alone. -/
def run : Prog ℓ σ ε α → σ → Res σ ε α
  | ret a, s => .ok a s
  | panic e, s => .stop (some e) s
  | act _ g u k, s => bif g s then (k s).run (u s) else .stop none s

@[simp] lemma run_ret (a : α) (s : σ) : (ret a : Prog ℓ σ ε α).run s = .ok a s := rfl

@[simp] lemma run_pure (a : α) (s : σ) : (pure a : Prog ℓ σ ε α).run s = .ok a s := rfl

@[simp] lemma run_panic (e : ε) (s : σ) :
    (panic e : Prog ℓ σ ε α).run s = .stop (some e) s := rfl

lemma run_act (l : ℓ) (g : σ → Bool) (u : σ → σ) (k : σ → Prog ℓ σ ε α) (s : σ) :
    (act l g u k).run s = bif g s then (k s).run (u s) else .stop none s := rfl

lemma run_bind (p : Prog ℓ σ ε α) (f : α → Prog ℓ σ ε β) (s : σ) :
    (p >>= f).run s = (p.run s).andThen fun a s => (f a).run s := by
  induction p generalizing s with
  | ret a => rfl
  | panic e => rfl
  | act l g u k ih =>
    simp only [act_bind, run_act]
    cases g s with
    | true => exact ih s (u s)
    | false => rfl

/-- The action that reads a value of the state. -/
def get (l : ℓ) (f : σ → α) : Prog ℓ σ ε α :=
  act l (fun _ => true) id fun s => ret (f s)

/-- The action that changes the state. -/
def modify (l : ℓ) (u : σ → σ) : Prog ℓ σ ε Unit :=
  act l (fun _ => true) u fun _ => ret ()

@[simp] lemma run_get (l : ℓ) (f : σ → α) (s : σ) :
    (get l f : Prog ℓ σ ε α).run s = .ok (f s) s := rfl

@[simp] lemma run_modify (l : ℓ) (u : σ → σ) (s : σ) :
    (modify l u : Prog ℓ σ ε Unit).run s = .ok () (u s) := rfl

/-! ### Weakest preconditions -/

/-- The run from `s` ends in `Q`, or stops in `E`. -/
def wp (p : Prog ℓ σ ε α) (Q : α → σ → Prop) (E : Option ε → σ → Prop) (s : σ) : Prop :=
  match p.run s with
  | .ok a s' => Q a s'
  | .stop e s' => E e s'

variable {Q Q' : α → σ → Prop} {E E' : Option ε → σ → Prop} {s : σ}

@[simp] lemma wp_ret {a : α} : (ret a : Prog ℓ σ ε α).wp Q E s ↔ Q a s := Iff.rfl

@[simp] lemma wp_pure {a : α} : (pure a : Prog ℓ σ ε α).wp Q E s ↔ Q a s := Iff.rfl

@[simp] lemma wp_panic {e : ε} : (panic e : Prog ℓ σ ε α).wp Q E s ↔ E (some e) s := Iff.rfl

@[simp] lemma wp_get {l : ℓ} {f : σ → α} :
    (get l f : Prog ℓ σ ε α).wp Q E s ↔ Q (f s) s := Iff.rfl

@[simp] lemma wp_modify {l : ℓ} {u : σ → σ} {Q : Unit → σ → Prop} :
    (modify l u : Prog ℓ σ ε Unit).wp Q E s ↔ Q () (u s) := Iff.rfl

lemma wp_act {l : ℓ} {g : σ → Bool} {u : σ → σ} {k : σ → Prog ℓ σ ε α} :
    (act l g u k).wp Q E s ↔ if g s then (k s).wp Q E (u s) else E none s := by
  simp only [wp, run_act]
  cases g s <;> simp

lemma wp_bind {p : Prog ℓ σ ε α} {f : α → Prog ℓ σ ε β} {Q : β → σ → Prop} :
    (p >>= f).wp Q E s ↔ p.wp (fun a s => (f a).wp Q E s) E s := by
  unfold wp
  rw [run_bind]
  cases p.run s <;> rfl

lemma wp_mono {p : Prog ℓ σ ε α} (h : p.wp Q E s) (hQ : ∀ a s', Q a s' → Q' a s')
    (hE : ∀ e s', E e s' → E' e s') : p.wp Q' E' s := by
  unfold wp at h ⊢
  cases hr : p.run s with
  | ok a s' => rw [hr] at h; exact hQ a s' h
  | stop e s' => rw [hr] at h; exact hE e s' h

/-- The rule for a call: use the specification of `p`, then go on. -/
lemma wp_call {p : Prog ℓ σ ε α} {f : α → Prog ℓ σ ε β} {R : β → σ → Prop} (h : p.wp Q E s)
    (hf : ∀ a s', Q a s' → (f a).wp R E s') : (p >>= f).wp R E s :=
  wp_bind.mpr (wp_mono h hf fun _ _ h => h)

lemma wp_true {p : Prog ℓ σ ε α} : p.wp (fun _ _ => True) (fun _ _ => True) s := by
  unfold wp
  split <;> trivial

/-- The rule for a call about which nothing need be known. -/
lemma wp_skip {p : Prog ℓ σ ε α} {f : α → Prog ℓ σ ε β} {R : β → σ → Prop}
    (hf : ∀ a s', (f a).wp R (fun _ _ => True) s') : (p >>= f).wp R (fun _ _ => True) s :=
  wp_call wp_true fun a s' _ => hf a s'

lemma wp_of_run {p : Prog ℓ σ ε α} {a : α} {s' : σ} (h : p.run s = .ok a s') (hQ : Q a s') :
    p.wp Q E s := by
  unfold wp
  rw [h]
  exact hQ

lemma wp_and {p : Prog ℓ σ ε α} (h : p.wp Q E s) (h' : p.wp Q' E' s) :
    p.wp (fun a s' => Q a s' ∧ Q' a s') E s := by
  unfold wp at h h' ⊢
  cases hr : p.run s with
  | ok a s' =>
    rw [hr] at h h'
    exact ⟨h, h'⟩
  | stop e s' =>
    rw [hr] at h
    exact h

/-- A run that cannot stop ends. -/
lemma wp_total {p : Prog ℓ σ ε α} (h : p.wp Q (fun _ _ => False) s) :
    ∃ a s', p.run s = .ok a s' ∧ Q a s' := by
  unfold wp at h
  cases hr : p.run s with
  | ok a s' => rw [hr] at h; exact ⟨a, s', rfl, h⟩
  | stop e s' => rw [hr] at h; exact h.elim

lemma wp_ok {p : Prog ℓ σ ε α} {a : α} {s' : σ} (h : p.wp Q E s) (hr : p.run s = .ok a s') :
    Q a s' := by
  unfold wp at h
  rwa [hr] at h

/-! ### Frames -/

/-- Every action of a program relates the states before and after it. -/
def acts (R : σ → σ → Prop) : Prog ℓ σ ε α → Prop
  | ret _ => True
  | panic _ => True
  | act _ g u k => (∀ s, g s = true → R s (u s)) ∧ ∀ s, (k s).acts R

lemma acts_bind {R : σ → σ → Prop} {p : Prog ℓ σ ε α} {f : α → Prog ℓ σ ε β} (h : p.acts R)
    (hf : ∀ a, (f a).acts R) : (p >>= f).acts R := by
  induction p with
  | ret a => exact hf a
  | panic e => trivial
  | act l g u k ih => exact ⟨h.1, fun s => ih s (h.2 s)⟩

lemma acts_ite {R : σ → σ → Prop} {c : Prop} [Decidable c] {p q : Prog ℓ σ ε α} (hp : p.acts R)
    (hq : q.acts R) : (if c then p else q).acts R := by
  split_ifs
  · exact hp
  · exact hq

/-- A program whose first part may find nothing. -/
lemma acts_option {R : σ → σ → Prop} {p : Prog ℓ σ ε (Option α)} {f : Option α → Prog ℓ σ ε β}
    (h : p.acts R) (hnone : (f none).acts R) (hsome : ∀ a, (f (some a)).acts R) :
    (p >>= f).acts R :=
  acts_bind h (Option.rec hnone hsome)

/-- A program whose first part may fail. -/
lemma acts_bool {R : σ → σ → Prop} {p : Prog ℓ σ ε Bool} {f : Bool → Prog ℓ σ ε β}
    (h : p.acts R) (hfalse : (f false).acts R) (htrue : (f true).acts R) : (p >>= f).acts R :=
  acts_bind h (Bool.rec hfalse htrue)

lemma acts_mono {R R' : σ → σ → Prop} {p : Prog ℓ σ ε α} (h : p.acts R)
    (hR : ∀ s s', R s s' → R' s s') : p.acts R' := by
  induction p with
  | ret a => trivial
  | panic e => trivial
  | act l g u k ih => exact ⟨fun s hg => hR _ _ (h.1 s hg), fun s => ih s (h.2 s)⟩

/-- What every action of a program keeps, its runs keep. -/
lemma wp_of_acts {R : σ → σ → Prop} {p : Prog ℓ σ ε α} (hrefl : ∀ s, R s s)
    (htrans : ∀ s s' s'', R s s' → R s' s'' → R s s'') (h : p.acts R) (s : σ) :
    p.wp (fun _ s' => R s s') (fun _ s' => R s s') s := by
  induction p generalizing s with
  | ret a => exact hrefl s
  | panic e => exact hrefl s
  | act l g u k ih =>
    rw [wp_act]
    split
    next hg =>
      refine wp_mono (ih s (h.2 s) (u s)) ?_ ?_ <;>
        exact fun _ s' h' => htrans _ _ _ (h.1 s hg) h'
    next => exact hrefl s

/-! ### Programs on a part of the state -/

section Lift

variable {ℓ' τ ε' : Type} {get' : τ → σ} {put : τ → σ → τ} {pan : ε → ε'} {l : ℓ'}

/-- A program on the part of a larger state that `get'` reads and `put` writes. -/
def lift (get' : τ → σ) (put : τ → σ → τ) (pan : ε → ε') (l : ℓ') :
    Prog ℓ σ ε α → Prog ℓ' τ ε' α
  | ret a => ret a
  | panic e => panic (pan e)
  | act _ g u k => act l (fun t => g (get' t)) (fun t => put t (u (get' t)))
      fun t => (k (get' t)).lift get' put pan l

/-- The run of a lifted program is a run on the part, with the rest of the state as it was. -/
lemma wp_lift (hget : ∀ t s, get' (put t s) = s) (hput : ∀ t s s', put (put t s) s' = put t s')
    (hself : ∀ t, put t (get' t) = t) {p : Prog ℓ σ ε α} {t : τ} (h : p.wp Q E (get' t)) :
    (p.lift get' put pan l).wp (fun a t' => ∃ s', t' = put t s' ∧ Q a s')
      (fun e t' => ∃ e' s', e = e'.map pan ∧ t' = put t s' ∧ E e' s') t := by
  induction p generalizing t with
  | ret a => exact ⟨get' t, (hself t).symm, h⟩
  | panic e => exact ⟨some e, get' t, rfl, (hself t).symm, h⟩
  | act lab g u k ih =>
    rw [wp_act] at h
    rw [lift, wp_act]
    split_ifs at h ⊢ with hg
    · have hk : (k (get' t)).wp Q E (get' (put t (u (get' t)))) := by
        rw [hget]
        exact h
      refine wp_mono (ih _ hk) ?_ ?_
      · rintro a t' ⟨s', rfl, hQ⟩
        exact ⟨s', hput .., hQ⟩
      · rintro e t' ⟨e', s', he, rfl, hE⟩
        exact ⟨e', s', he, hput .., hE⟩
    · exact ⟨none, get' t, rfl, (hself t).symm, h⟩

end Lift

end Prog

end Xv6.Lib
