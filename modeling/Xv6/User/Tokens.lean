import Xv6.User.Parse

/-!
# The tokens of a line

A line is a sequence of tokens: `gettoken` takes them off one by one, and `peek` looks at the first
character of the next one.
-/

namespace Xv6.User.Sh

open Lib Prog List

/-- The tokens. A word is given by where it starts and ends. -/
inductive Token
  | bar
  | lparen
  | rparen
  | semi
  | amp
  | lt
  | gt
  | append
  | word (q eq : Nat)
  deriving DecidableEq, Repr

namespace Token

/-- The token as `gettoken` returns it. -/
def tok : Token → Tok
  | bar => .bar
  | lparen => .lparen
  | rparen => .rparen
  | semi => .semi
  | amp => .amp
  | lt => .lt
  | gt => .gt
  | append => .append
  | word _ _ => .word

/-- The first character of a token that is not a word. -/
def first : Token → Option Byte
  | bar => some 124
  | lparen => some 40
  | rparen => some 41
  | semi => some 59
  | amp => some 38
  | lt => some 60
  | gt => some 62
  | append => some 62
  | word _ _ => none

end Token

/-- The token that a character other than `>` is. -/
def symbol (c : Byte) : Option Token :=
  if c = 124 then some .bar
  else if c = 40 then some .lparen
  else if c = 41 then some .rparen
  else if c = 59 then some .semi
  else if c = 38 then some .amp
  else if c = 60 then some .lt
  else none

lemma le_skip (b : List Byte) (f : Byte → Bool) (s : Nat) : s ≤ skip b f s := Nat.le_add_right ..

/-- The tokens of the line from offset `s` on: white space separates words and is skipped, `>>` is
one token, and a word goes as far as it can. -/
def tokens (b : List Byte) (s : Nat) : List Token :=
  if h : s < b.length then
    if isSpace b[s] then tokens b (s + 1)
    else if b[s] = 62 then
      if b[s + 1]? = some 62 then .append :: tokens b (s + 2) else .gt :: tokens b (s + 1)
    else
      match symbol b[s] with
      | some t => t :: tokens b (s + 1)
      | none => .word s (skip b inWord (s + 1)) :: tokens b (skip b inWord (s + 1))
  else []
termination_by b.length - s
decreasing_by
  all_goals
    have hword := le_skip b inWord (s + 1)
    omega

section Scan

variable {b : List Byte} {f : Byte → Bool} {s : Nat}

lemma skip_succ (h : s < b.length) (hf : f b[s] = true) : skip b f s = skip b f (s + 1) := by
  rw [skip, drop_eq_getElem_cons h, takeWhile_cons, if_pos hf, length_cons, skip]
  omega

lemma skip_stop (h : s < b.length) (hf : f b[s] = false) : skip b f s = s := by
  rw [skip, drop_eq_getElem_cons h, takeWhile_cons, if_neg (by simp [hf])]
  rfl

lemma skip_end (h : b.length ≤ s) : skip b f s = s := by
  rw [skip, drop_of_length_le h]
  rfl

/-- What holds at the end of a `skip` when it holds wherever the loop can stop. -/
lemma skip_induct {C : Nat → Nat → Prop} (hend : ∀ s, b.length ≤ s → C s s)
    (hstop : ∀ s (h : s < b.length), f b[s] = false → C s s)
    (hstep : ∀ s (h : s < b.length), f b[s] = true → ∀ e, C (s + 1) e → C s e) (s : Nat) :
    C s (skip b f s) := by
  induction hn : b.length - s generalizing s with
  | zero =>
    rw [skip_end (by omega)]
    exact hend s (by omega)
  | succ n ih =>
    have hs : s < b.length := by omega
    cases hf : f b[s] with
    | true =>
      rw [skip_succ hs hf]
      exact hstep s hs hf _ (ih (s + 1) (by omega))
    | false =>
      rw [skip_stop hs hf]
      exact hstop s hs hf

lemma skip_le (h : s ≤ b.length) : skip b f s ≤ b.length :=
  skip_induct (C := fun s e => s ≤ b.length → e ≤ b.length) (fun _ _ h => h) (fun _ _ _ h => h)
    (fun _ hs _ _ ih _ => ih hs) s h

lemma skip_spec (h : skip b f s < b.length) : f b[skip b f s] = false :=
  skip_induct (C := fun _ e => (h : e < b.length) → f b[e] = false)
    (fun _ hs h => absurd h (by omega)) (fun _ _ hf _ => hf) (fun _ _ _ _ ih => ih) s h

/-- The characters that are skipped. -/
lemma skip_between {i : Nat} (hs : s ≤ i) (hi : i < skip b f s) : ∃ h :
    i < b.length, f b[i] = true :=
  skip_induct (C := fun s e => s ≤ i → i < e → ∃ h : i < b.length, f b[i] = true)
    (fun _ _ _ _ => by omega) (fun _ _ _ _ _ => by omega)
    (fun _ hlen hf _ ih hle hlt => by
      rcases Nat.eq_or_lt_of_le hle with rfl | hlt'
      · exact ⟨hlen, hf⟩
      · exact ih hlt' hlt) s hs hi

@[simp] lemma tokens_skip (s : Nat) : tokens b (skip b isSpace s) = tokens b s := by
  refine skip_induct (C := fun s e => tokens b e = tokens b s) (fun _ _ => rfl) (fun _ _ _ => rfl)
    (fun s hs hf e ih => ?_) s
  rw [ih, tokens.eq_def b s, dif_pos hs, if_pos hf]

lemma tokens_end (h : b.length ≤ s) : tokens b s = [] := by
  rw [tokens, dif_neg (by omega)]

/-- What is scanned at a character that is not white space. -/
structure Scanned (b : List Byte) (s : Nat) (t : Token) (e : Nat) : Prop where
  scan : scan b s = (t.tok, e)
  tokens : tokens b s = t :: tokens b e
  lt : s < e
  le : e ≤ b.length
  first : ∀ c, t.first = some c → b.getD s 0 = c
  word : t.first = none → t = .word s e ∧ e = skip b inWord s ∧ b.getD s 0 ∉ symbols

/-- A character other than `>` that is a symbol is a token. -/
lemma scan_symbol {t : Token} (hs : s < b.length) (h : symbol b[s] = some t) :
    scan b s = (t.tok, s + 1) ∧ t.first = some b[s] := by
  have hc : b.getD s 0 = b[s] := getD_eq_getElem b 0 hs
  unfold scan
  rw [hc]
  unfold symbol at h
  split_ifs at h with h1 h2 h3 h4 h5 h6 <;> cases h
  · rw [h1]; exact ⟨rfl, rfl⟩
  · rw [h2]; exact ⟨rfl, rfl⟩
  · rw [h3]; exact ⟨rfl, rfl⟩
  · rw [h4]; exact ⟨rfl, rfl⟩
  · rw [h5]; exact ⟨rfl, rfl⟩
  · rw [h6]; exact ⟨rfl, rfl⟩

/-- Any other character starts a word. -/
lemma scan_word (hs : s < b.length) (hne : b[s] ≠ 0) (hgt : b[s] ≠ 62) (h : symbol b[s] = none) :
    scan b s = (.word, skip b inWord s) ∧ b[s] ∉ symbols := by
  have hc : b.getD s 0 = b[s] := getD_eq_getElem b 0 hs
  unfold scan
  rw [hc]
  unfold symbol at h
  split_ifs at h with h1 h2 h3 h4 h5 h6
  refine ⟨by simp only [hne, h1, h2, h3, h4, h5, h6, hgt, if_false], ?_⟩
  have hsymbols : symbols = [60, 124, 62, 38, 59, 40, 41] := by decide
  rw [hsymbols]
  simp only [mem_cons, not_mem_nil, h1, h2, h3, h4, h5, h6, hgt, or_self, not_false_eq_true]

/-- `gettoken` reads the first token of the grammar. -/
lemma scan_spec (hb : ∀ c ∈ b, c ≠ 0) (hs : s < b.length) (hsp : isSpace b[s] = false) :
    ∃ t e, Scanned b s t e := by
  have hc : b.getD s 0 = b[s] := getD_eq_getElem b 0 hs
  have htok := tokens.eq_def b s
  rw [dif_pos hs, if_neg (by simp [hsp])] at htok
  by_cases hgt : b[s] = 62
  · rw [if_pos hgt] at htok
    have hscan : scan b s = if b.getD (s + 1) 0 = 62 then (.append, s + 2) else (.gt, s + 1) := by
      unfold scan
      rw [hc, hgt]
      rfl
    by_cases happ : b[s + 1]? = some 62
    · obtain ⟨hlt, -⟩ := List.getElem?_eq_some_iff.mp happ
      rw [if_pos happ] at htok
      rw [getD_eq_getElem?_getD, happ, Option.getD_some, if_pos rfl] at hscan
      refine ⟨.append, s + 2, hscan, htok, by omega, by omega, ?_, by simp [Token.first]⟩
      rintro c hfirst
      rw [hc, hgt, ← Option.some.inj hfirst]
    · rw [if_neg happ] at htok
      have hne : b.getD (s + 1) 0 ≠ 62 := by
        intro heq
        rw [getD_eq_getElem?_getD] at heq
        cases hnext : b[s + 1]? with
        | none => rw [hnext] at heq; exact absurd heq (by decide)
        | some c => rw [hnext] at heq happ; exact happ (congrArg some heq)
      rw [if_neg hne] at hscan
      refine ⟨.gt, s + 1, hscan, htok, by omega, hs, ?_, by simp [Token.first]⟩
      rintro c hfirst
      rw [hc, hgt, ← Option.some.inj hfirst]
  · rw [if_neg hgt] at htok
    cases hsym : symbol b[s] with
    | some t =>
      rw [hsym] at htok
      obtain ⟨hscan, hfirst⟩ := scan_symbol hs hsym
      refine ⟨t, s + 1, hscan, htok, by omega, hs, fun c hf => ?_, fun hf => ?_⟩
      · rw [hfirst] at hf
        rw [hc, Option.some.inj hf]
      · rw [hfirst] at hf
        cases hf
    | none =>
      rw [hsym] at htok
      obtain ⟨hscan, hnot⟩ := scan_word hs (hb _ (getElem_mem hs)) hgt hsym
      have hword : inWord b[s] = true := by
        rw [inWord, Bool.and_eq_true, Bool.not_eq_true', Bool.not_eq_true']
        exact ⟨hsp, by simpa using hnot⟩
      rw [skip_succ hs hword] at hscan
      refine ⟨.word s (skip b inWord (s + 1)), skip b inWord (s + 1), hscan, htok,
        le_skip .., skip_le hs,
        by simp [Token.first], fun _ => ⟨rfl, (skip_succ hs hword).symm, by rw [hc]; exact hnot⟩⟩

/-- At the end of the white space there is a token or the end of the line. -/
lemma tokens_cases (hb : ∀ c ∈ b, c ≠ 0) (hs : s ≤ b.length) :
    (tokens b s = [] ∧ skip b isSpace s = b.length) ∨
      ∃ t e, tokens b s = t :: tokens b e ∧ Scanned b (skip b isSpace s) t e := by
  rcases Nat.lt_or_ge (skip b isSpace s) b.length with hlt | hge
  · obtain ⟨t, e, hsc⟩ := scan_spec hb hlt (skip_spec hlt)
    refine .inr ⟨t, e, ?_, hsc⟩
    rw [← tokens_skip s, hsc.tokens]
  · refine .inl ⟨?_, Nat.le_antisymm (skip_le hs) hge⟩
    rw [← tokens_skip s, tokens_end hge]

lemma length_tokens (hb : ∀ c ∈ b, c ≠ 0) (hs : s ≤ b.length) :
    (tokens b s).length ≤ b.length - s := by
  induction hn : b.length - s using Nat.strong_induction_on generalizing s with
  | h n ih =>
    rcases tokens_cases hb hs with ⟨hnil, -⟩ | ⟨t, e, htok, hsc⟩
    · simp [hnil]
    · have hle := le_skip b isSpace s
      have hlt := hsc.lt
      have hle' := hsc.le
      have := ih (b.length - e) (by omega) hsc.le rfl
      rw [htok, length_cons]
      omega

end Scan

/-! ### The two functions on tokens -/

/-- The tokens `ts` are still to come. -/
structure At (b : List Byte) (p : Parse) (ts : List Token) : Prop where
  le : p.s ≤ b.length
  tokens : tokens b p.s = ts

/-- The next token starts with one of the characters `toks`. -/
def starts (toks : List Byte) (ts : List Token) : Bool :=
  (ts.head?.bind Token.first).any fun c => toks.contains c

section Rules

variable {b toks : List Byte} {p : Parse} {t : Token} {ts : List Token}
  {E : Option Panic → Parse → Prop}

/-- The characters that the parser asks for are symbols. -/
lemma asked_symbols {s : String} (hs : s ∈ ["<>", "|)&;", "&", ";", "|", "(", ")"]) :
    ∀ c ∈ str s, c ∈ symbols := by
  revert s
  decide +kernel

@[simp] lemma starts_nil : starts toks [] = false := rfl

@[simp] lemma starts_cons : starts toks (t :: ts) = t.first.any fun c => toks.contains c := rfl

lemma peek_eq {t : Token} {s e : Nat} (h : Scanned b s t e) (hb : ∀ c ∈ b, c ≠ 0)
    (htoks : ∀ c ∈ toks, c ∈ symbols) :
    (b.getD s 0 ≠ 0 && toks.contains (b.getD s 0)) = t.first.any fun c => toks.contains c := by
  have hlt : s < b.length := h.lt.trans_le h.le
  have hne : b.getD s 0 ≠ 0 := by
    rw [getD_eq_getElem b 0 hlt]
    exact hb _ (getElem_mem hlt)
  rw [decide_eq_true hne, Bool.true_and]
  cases hf : t.first with
  | some c => rw [h.first c hf, Option.any_some]
  | none =>
    rw [Option.any_none]
    obtain ⟨-, -, hnot⟩ := h.word hf
    rw [contains_eq_mem, decide_eq_false_iff_not]
    exact fun hmem => hnot (htoks _ hmem)

lemma wp_peek {Q : Bool → Parse → Prop} (hb : ∀ c ∈ b, c ≠ 0) (h : At b p ts)
    (htoks : ∀ c ∈ toks, c ∈ symbols)
    (hQ : ∀ p', At b p' ts → p'.execs = p.execs → (p'.s = b.length ↔ ts = []) →
      Q (starts toks ts) p') :
    (peek b toks).wp Q E p := by
  have hat : At b { p with s := skip b isSpace p.s } ts :=
    ⟨skip_le h.le, by rw [tokens_skip, h.tokens]⟩
  rcases tokens_cases hb h.le with ⟨hnil, hend⟩ | ⟨t, e, htok, hsc⟩
  · obtain rfl := h.tokens.symm.trans hnil
    have hq := hQ _ hat rfl (iff_of_true hend rfl)
    have hzero : b.getD (skip b isSpace p.s) 0 = 0 := by
      rw [hend, getD_eq_default b 0 le_rfl]
    change Q _ _
    rwa [hzero]
  · obtain rfl := h.tokens.symm.trans htok
    have hq := hQ _ hat rfl (iff_of_false (Nat.ne_of_lt (hsc.lt.trans_le hsc.le)) (by simp))
    change Q _ _
    rwa [peek_eq hsc hb htoks]

lemma run_gettoken {r : Tok} {e : Nat} (h : scan b (skip b isSpace p.s) = (r, e)) :
    (gettoken b).run p = .ok (r, skip b isSpace p.s, e) { p with s := skip b isSpace e } := by
  rw [gettoken, run_act]
  simp only [h]
  rfl

lemma wp_gettoken_nil {Q : Tok × Nat × Nat → Parse → Prop} (hb : ∀ c ∈ b, c ≠ 0) (h : At b p [])
    (hQ : ∀ q eq p', At b p' [] → p'.execs = p.execs → Q (.nul, q, eq) p') :
    (gettoken b).wp Q E p := by
  rcases tokens_cases hb h.le with ⟨hnil, hend⟩ | ⟨t, e, htok, -⟩
  · have hscan : scan b (skip b isSpace p.s) = (.nul, skip b isSpace p.s) := by
      unfold scan
      rw [hend, getD_eq_default b 0 le_rfl]
      rfl
    refine wp_of_run (run_gettoken hscan) (hQ _ _ _ ⟨skip_le (skip_le h.le), ?_⟩ rfl)
    rw [tokens_skip, tokens_skip, hnil]
  · rw [h.tokens] at htok
    cases htok

lemma wp_gettoken {Q : Tok × Nat × Nat → Parse → Prop} (hb : ∀ c ∈ b, c ≠ 0) (h : At b p (t :: ts))
    (hQ : ∀ q eq p', At b p' ts → p'.execs = p.execs → (t.first = none → t = .word q eq) →
      Q (t.tok, q, eq) p') : (gettoken b).wp Q E p := by
  rcases tokens_cases hb h.le with ⟨hnil, -⟩ | ⟨t', e, htok, hsc⟩
  · rw [h.tokens] at hnil
    cases hnil
  · rw [h.tokens] at htok
    cases htok
    exact wp_of_run (run_gettoken hsc.scan)
      (hQ _ _ _ ⟨skip_le hsc.le, tokens_skip e⟩ rfl fun hf => (hsc.word hf).1)

/-- The token that `peek` has seen is taken. -/
lemma wp_gettoken_tail {Q : Tok × Nat × Nat → Parse → Prop} (hb : ∀ c ∈ b, c ≠ 0) (h : At b p ts)
    (hst : starts toks ts = true) (hQ : ∀ r p', At b p' ts.tail → p'.execs = p.execs → Q r p') :
    (gettoken b).wp Q E p := by
  cases ts with
  | nil => cases hst
  | cons t ts => exact wp_gettoken hb h fun q eq p' h' he _ => hQ _ p' h' he

end Rules

end Xv6.User.Sh
