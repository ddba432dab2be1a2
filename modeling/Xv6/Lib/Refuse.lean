import Xv6.Lib.Prog

/-!
# Requests that are refused

A program asks for a resource in the actions whose label satisfies `asks`. `refuse` is the program
that takes the answers from a list: where the next answer is `true` the action finds the state as
`hide` shows it, with nothing left to give, and `back` puts what was hidden in its place again.
After the end of the list no request is refused. -/

namespace Xv6.Lib.Prog

variable {ℓ σ ε α β : Type} (asks : ℓ → Bool) (hide : σ → σ) (back : σ → σ → σ)

/-- The program with the answers as a part of the state. -/
def refuse : Prog ℓ σ ε α → Prog ℓ (σ × List Bool) ε α
  | ret a => ret a
  | panic e => panic e
  | act l g u k =>
    bif asks l then
      act l (fun t => g (bif t.2.headD false then hide t.1 else t.1))
        (fun t => (bif t.2.headD false then back t.1 (u (hide t.1)) else u t.1, t.2.tail))
        fun t => (k (bif t.2.headD false then hide t.1 else t.1)).refuse
    else act l (fun t => g t.1) (fun t => (u t.1, t.2)) fun t => (k t.1).refuse

/-- No action of the program asks. -/
def silent : Prog ℓ σ ε α → Prop
  | ret _ => True
  | panic _ => True
  | act l _ _ k => asks l = false ∧ ∀ s, (k s).silent

variable {asks hide back} {p : Prog ℓ σ ε α} {f : α → Prog ℓ σ ε β} {s : σ} {bs : List Bool}
  {Q : α → σ → Prop} {E : Option ε → σ → Prop}

lemma refuse_act {l : ℓ} {g : σ → Bool} {u : σ → σ} {k : σ → Prog ℓ σ ε α} (h : asks l = false) :
    (act l g u k).refuse asks hide back =
      act l (fun t => g t.1) (fun t => (u t.1, t.2)) fun t => (k t.1).refuse asks hide back := by
  rw [refuse, h]
  rfl

lemma refuse_ask {l : ℓ} {g : σ → Bool} {u : σ → σ} {k : σ → Prog ℓ σ ε α} (h : asks l = true) :
    (act l g u k).refuse asks hide back =
      act l (fun t => g (bif t.2.headD false then hide t.1 else t.1))
        (fun t => (bif t.2.headD false then back t.1 (u (hide t.1)) else u t.1, t.2.tail))
        fun t => (k (bif t.2.headD false then hide t.1 else t.1)).refuse asks hide back := by
  rw [refuse, h]
  rfl

@[simp] lemma refuse_bind : (p >>= f).refuse asks hide back =
    p.refuse asks hide back >>= fun a => (f a).refuse asks hide back := by
  induction p with
  | ret a => rfl
  | panic e => rfl
  | act l g u k ih =>
    rw [act_bind]
    cases h : asks l with
    | true => simp only [refuse_ask h, act_bind, ih]
    | false => simp only [refuse_act h, act_bind, ih]

lemma silent_bind (h : p.silent asks) (hf : ∀ a, (f a).silent asks) : (p >>= f).silent asks := by
  induction p with
  | ret a => exact hf a
  | panic e => trivial
  | act l g u k ih => exact ⟨h.1, fun s => ih s (h.2 s)⟩

/-- A program that does not ask is not disturbed. -/
lemma wp_refuse_silent (h : p.silent asks) (hp : p.wp Q E s) : (p.refuse asks hide back).wp
    (fun a t => Q a t.1 ∧ t.2 = bs) (fun e t => E e t.1) (s, bs) := by
  induction p generalizing s with
  | ret a => exact ⟨hp, rfl⟩
  | panic e => exact hp
  | act l g u k ih =>
    rw [wp_act] at hp
    rw [refuse_act h.1, wp_act]
    split_ifs at hp ⊢ with hg
    · exact ih s (h.2 s) hp
    · exact hp

/-- Without refusals the program is the one it was. -/
lemma wp_refuse_nil : (p.refuse asks hide back).wp (fun a t => Q a t.1)
    (fun e t => E e t.1) (s, []) ↔
    p.wp Q E s := by
  induction p generalizing s with
  | ret a => exact Iff.rfl
  | panic e => exact Iff.rfl
  | act l g u k ih =>
    cases h : asks l with
    | true =>
      rw [refuse_ask h, wp_act, wp_act]
      change (if g s = true then _ else _) ↔ _
      split_ifs
      · exact ih s
      · exact Iff.rfl
    | false =>
      rw [refuse_act h, wp_act, wp_act]
      split_ifs
      · exact ih s
      · exact Iff.rfl

end Xv6.Lib.Prog
