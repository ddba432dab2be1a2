import Xv6.User.Tokens

/-!
# The grammar of the shell

The grammar is

    line  ::=  pipe &* [; line]
    pipe  ::=  exec [| pipe]
    exec  ::=  ( line ) redir*  or  redir* (word redir*)*
    redir ::=  < word  or  > word  or  >> word

with fewer than `MAXARGS` words in a command. Every derivation comes with its tree. A parser on
tokens finds exactly the derivations, and `parsecmd` does what that parser does: it returns the tree
of the derivation of its line, and panics if there is none. -/

namespace Xv6.User.Sh

open Lib Prog List

/-- A word of the line: where it starts and ends. -/
abbrev Word := Nat × Nat

structure Redir where
  file : Word
  mode : Nat
  fd : Nat

/-- The trees of the grammar. -/
inductive Tree
  | exec (argv : List Word)
  | redir (cmd : Tree) (file : Word) (mode fd : Nat)
  | pipe (left right : Tree)
  | list (left right : Tree)
  | back (cmd : Tree)

/-- The mode and the file descriptor of a redirection. -/
def Token.redir : Token → Option (Nat × Nat)
  | lt => some (O_RDONLY, 0)
  | gt => some (O_WRONLY ||| O_CREATE, 1)
  | append => some (O_WRONLY ||| O_CREATE, 1)
  | _ => none

/-- The redirections `rs` around a tree, the first one innermost. -/
def wrap (t : Tree) (rs : List Redir) : Tree := rs.foldl (fun t r => .redir t r.file r.mode r.fd) t

/-- `redir*`. -/
inductive Redirs : List Token → List Redir → Prop
  | nil : Redirs [] []
  | cons {op : Token} {q eq mode fd : Nat} {ts : List Token} {rs : List Redir}
      (hop : op.redir = some (mode, fd)) (h : Redirs ts rs) :
      Redirs (op :: .word q eq :: ts) (⟨(q, eq), mode, fd⟩ :: rs)

/-- `(word redir*)*`. -/
inductive Args : List Token → List Word → List Redir → Prop
  | nil : Args [] [] []
  | cons {q eq : Nat} {ts us : List Token} {ws : List Word} {rs rs' : List Redir}
      (hr : Redirs ts rs)
      (h : Args us ws rs') : Args (.word q eq :: (ts ++ us)) ((q, eq) :: ws) (rs ++ rs')

mutual

inductive Line : List Token → Tree → Prop
  | last {ts : List Token} {t : Tree} (k : Nat) (h : Pipe ts t) :
      Line (ts ++ List.replicate k .amp) (Tree.back^[k] t)
  | list {ts us : List Token} {t u : Tree} (k : Nat) (h : Pipe ts t) (hr : Line us u) :
      Line (ts ++ (List.replicate k .amp ++ .semi :: us)) (.list (Tree.back^[k] t) u)

inductive Pipe : List Token → Tree → Prop
  | last {ts : List Token} {t : Tree} (h : Exec ts t) : Pipe ts t
  | pipe {ts us : List Token} {t u : Tree} (h : Exec ts t) (hr : Pipe us u) :
      Pipe (ts ++ .bar :: us) (.pipe t u)

inductive Exec : List Token → Tree → Prop
  | block {ts us : List Token} {t : Tree} {rs : List Redir} (h : Line ts t) (hr : Redirs us rs) :
      Exec (.lparen :: (ts ++ .rparen :: us)) (wrap t rs)
  | simple {ts us : List Token} {ws : List Word} {rs rs' : List Redir} (hr : Redirs ts rs)
      (h : Args us ws rs') (hlen : ws.length ≤ MAXARGS - 1) :
      Exec (ts ++ us) (wrap (.exec ws) (rs ++ rs'))

end

/-! ### A parser on tokens -/

namespace Grammar

/-- `redir*`, as far as it goes, and the tokens after it. -/
def redirs : List Token → Option (List Redir × List Token)
  | op :: .word q eq :: ts =>
    match op.redir with
    | none => some ([], op :: .word q eq :: ts)
    | some (mode, fd) => do
      let (rs, rest) ← redirs ts
      some (⟨(q, eq), mode, fd⟩ :: rs, rest)
  | ts => if starts (str "<>") ts then none else some ([], ts)

/-- `(word redir*)*`, with at most `k` words. -/
def args : Nat → List Token → Option ((List Word × List Redir) × List Token)
  | 0, .word _ _ :: _ => none
  | k + 1, .word q eq :: ts => do
    let (rs, ts) ← redirs ts
    let ((ws, rs'), rest) ← args k ts
    some (((q, eq) :: ws, rs ++ rs'), rest)
  | _, ts => if ts = [] ∨ starts (str "|)&;") ts then some (([], []), ts) else none

mutual

def line : Nat → List Token → Option (Tree × List Token)
  | 0, _ => none
  | n + 1, ts => do
    let (t, ts) ← pipe n ts
    let k := (ts.takeWhile (· = .amp)).length
    let ts := ts.dropWhile (· = .amp)
    if starts (str ";") ts then
      let (u, rest) ← line n ts.tail
      some (.list (Tree.back^[k] t) u, rest)
    else some (Tree.back^[k] t, ts)

def pipe : Nat → List Token → Option (Tree × List Token)
  | 0, _ => none
  | n + 1, ts => do
    let (t, ts) ← exec n ts
    if starts (str "|") ts then
      let (u, rest) ← pipe n ts.tail
      some (.pipe t u, rest)
    else some (t, ts)

def block : Nat → List Token → Option (Tree × List Token)
  | 0, _ => none
  | n + 1, ts => do
    let (t, ts) ← line n ts.tail
    if starts (str ")") ts then
      let (rs, rest) ← redirs ts.tail
      some (wrap t rs, rest)
    else none

def exec : Nat → List Token → Option (Tree × List Token)
  | 0, _ => none
  | n + 1, ts =>
    if starts (str "(") ts then block n ts
    else do
      let (rs, ts) ← redirs ts
      let ((ws, rs'), rest) ← args (MAXARGS - 1) ts
      some (wrap (.exec ws) (rs ++ rs'), rest)

end

section Sound

variable {u : Token} {c : Byte} {toks : List Byte} {ts rest : List Token} {t : Tree} {n k : Nat}

lemma eq_of_starts (h : starts toks ts = true) (htoks : toks = [c]) (hu : u.first = some c)
    (hc : c ≠ 62) : ts = u :: ts.tail := by
  cases ts with
  | nil => cases h
  | cons t ts =>
    rw [starts_cons, Option.any_eq_true] at h
    obtain ⟨c', hc', hmem⟩ := h
    obtain rfl : c' = c := by simpa [htoks] using hmem
    have : t = u := by cases u <;> cases hu <;> cases t <;> simp_all [Token.first]
    rw [this, tail_cons]

/-- The front of the tokens that a parser takes off. -/
def Takes {α : Type} (D : List Token → α → Prop) (ts : List Token) (x : α × List Token) : Prop :=
  ∃ us, ts = us ++ x.2 ∧ D us x.1

lemma starts_redir : starts (str "<>") (u :: ts) = u.redir.isSome := by cases u <;> rfl

lemma redirs_sound {x : List Redir × List Token} (h : redirs ts = some x) : Takes Redirs ts x := by
  revert h
  fun_induction redirs ts generalizing x with
  | case1 | case4 =>
    rintro ⟨⟩
    exact ⟨[], rfl, .nil⟩
  | case2 op q eq ts mode fd hop ih =>
    intro h
    obtain ⟨x', hx', ⟨⟩⟩ := Option.bind_eq_some_iff.mp h
    obtain ⟨us, hus, hrs⟩ := ih hx'
    exact ⟨op :: .word q eq :: us, by rw [hus]; rfl, .cons hop hrs⟩
  | case3 => simp

lemma args_sound {x : (List Word × List Redir) × List Token} (h : args k ts = some x) :
    Takes (fun us y => Args us y.1 y.2 ∧ y.1.length ≤ k) ts x := by
  revert h
  fun_induction args k ts generalizing x with
  | case1 | case4 => simp
  | case2 k q eq ts ih =>
    intro h
    obtain ⟨⟨rs, ts'⟩, hrs, h⟩ := Option.bind_eq_some_iff.mp h
    obtain ⟨x', hx', ⟨⟩⟩ := Option.bind_eq_some_iff.mp h
    obtain ⟨us, rfl, hus⟩ := redirs_sound hrs
    obtain ⟨vs, hvs, hargs, hle⟩ := ih _ hx'
    refine ⟨.word q eq :: (us ++ vs), ?_, .cons hus hargs, Nat.succ_le_succ hle⟩
    rw [hvs]
    simp
  | case3 =>
    rintro ⟨⟩
    exact ⟨[], rfl, .nil, Nat.zero_le _⟩

lemma amps_split (ts : List Token) : ts =
    List.replicate (ts.takeWhile (· = .amp)).length .amp ++ ts.dropWhile (· = .amp) := by
  have hall : ts.takeWhile (· = .amp) = List.replicate (ts.takeWhile (· = .amp)).length .amp :=
    eq_replicate_iff.mpr ⟨rfl, fun t ht => by simpa using all_eq_true.mp all_takeWhile t ht⟩
  rw [← hall, takeWhile_append_dropWhile]

/-- With the count `n`, what the parser finds has a derivation. -/
structure Sound (n : Nat) : Prop where
  line : ∀ ts x, line n ts = some x → Takes Line ts x
  pipe : ∀ ts x, pipe n ts = some x → Takes Pipe ts x
  block : ∀ ts x, starts (str "(") ts = true → block n ts = some x → Takes Exec ts x
  exec : ∀ ts x, exec n ts = some x → Takes Exec ts x

variable {x : Tree × List Token}

lemma sound_line (ih : Sound n) (h : line (n + 1) ts = some x) : Takes Line ts x := by
  rw [line] at h
  obtain ⟨⟨t, ts'⟩, ht, h⟩ := Option.bind_eq_some_iff.mp h
  obtain ⟨us, hus, hpipe⟩ := ih.pipe _ _ ht
  have hamps := amps_split ts'
  dsimp only at h hus
  rw [hus]
  split_ifs at h with hst
  · obtain ⟨⟨u, rest⟩, hu, ⟨⟩⟩ := Option.bind_eq_some_iff.mp h
    obtain ⟨vs, hvs, hline⟩ := ih.line _ _ hu
    rw [eq_of_starts (u := .semi) hst rfl rfl (by decide), hvs] at hamps
    exact ⟨_, by rw [hamps]; simp, .list _ hpipe hline⟩
  · cases h
    exact ⟨_, by rw [append_assoc, ← hamps], .last _ hpipe⟩

lemma sound_pipe (ih : Sound n) (h : pipe (n + 1) ts = some x) : Takes Pipe ts x := by
  rw [pipe] at h
  obtain ⟨⟨t, ts'⟩, ht, h⟩ := Option.bind_eq_some_iff.mp h
  obtain ⟨us, hus, hexec⟩ := ih.exec _ _ ht
  dsimp only at h hus
  rw [hus]
  split_ifs at h with hst
  · obtain ⟨⟨u, rest⟩, hu, ⟨⟩⟩ := Option.bind_eq_some_iff.mp h
    obtain ⟨vs, hvs, hpipe⟩ := ih.pipe _ _ hu
    refine ⟨_, ?_, .pipe hexec hpipe⟩
    rw [eq_of_starts (u := .bar) hst rfl rfl (by decide), hvs]
    simp
  · cases h
    exact ⟨us, rfl, .last hexec⟩

lemma sound_block (ih : Sound n)
    (hst : starts (str "(") ts = true) (h : block (n + 1) ts = some x) :
    Takes Exec ts x := by
  rw [block] at h
  obtain ⟨⟨t, ts'⟩, ht, h⟩ := Option.bind_eq_some_iff.mp h
  obtain ⟨us, hus, hline⟩ := ih.line _ _ ht
  dsimp only at h hus
  split_ifs at h with hst'
  obtain ⟨⟨rs, rest⟩, hrs, ⟨⟩⟩ := Option.bind_eq_some_iff.mp h
  obtain ⟨vs, hvs, hredirs⟩ := redirs_sound hrs
  refine ⟨_, ?_, .block hline hredirs⟩
  rw [eq_of_starts (u := .lparen) hst rfl rfl (by decide), hus,
    eq_of_starts (u := .rparen) hst' rfl rfl (by decide), hvs]
  simp

lemma sound_exec (ih : Sound n) (h : exec (n + 1) ts = some x) : Takes Exec ts x := by
  rw [exec] at h
  split_ifs at h with hst
  · exact ih.block ts x hst h
  · obtain ⟨⟨rs, ts'⟩, hrs, h⟩ := Option.bind_eq_some_iff.mp h
    obtain ⟨⟨⟨ws, rs'⟩, rest⟩, hws, ⟨⟩⟩ := Option.bind_eq_some_iff.mp h
    obtain ⟨us, rfl, hredirs⟩ := redirs_sound hrs
    obtain ⟨vs, hvs, hargs, hlen⟩ := args_sound hws
    exact ⟨us ++ vs, by rw [hvs, append_assoc], .simple hredirs hargs hlen⟩

lemma sound : ∀ n, Sound n
  | 0 => ⟨fun _ _ h => by simp [line] at h, fun _ _ h => by simp [pipe] at h,
    fun _ _ _ h => by simp [block] at h, fun _ _ h => by simp [exec] at h⟩
  | n + 1 => ⟨fun _ _ => sound_line (sound n), fun _ _ => sound_pipe (sound n),
    fun _ _ => sound_block (sound n), fun _ _ => sound_exec (sound n)⟩

end Sound

/-- Nothing follows, or a token of `fs`. -/
def Follow (fs rest : List Token) : Prop := ∀ t, rest.head? = some t → t ∈ fs

section Follow

variable {fs fs' rest us : List Token} {t : Token} {rs : List Redir} {ws : List Word}
  {toks : List Byte}

lemma Follow.mono (h : Follow fs rest) (hsub : fs ⊆ fs') :
    Follow fs' rest := fun t ht => hsub (h t ht)

lemma follow_nil : Follow fs [] := fun _ ht => by cases ht

lemma follow_cons (h : t ∈ fs) : Follow fs (t :: rest) := fun _ ht => Option.some.inj ht ▸ h

lemma follow_replicate (h : Follow fs rest) (ht : t ∈ fs) (k : Nat) :
    Follow fs (List.replicate k t ++ rest) := by
  cases k with
  | zero => exact h
  | succ k => exact follow_cons ht

/-- The next token is none that may not follow. -/
lemma Follow.starts (h : Follow fs rest)
    (hfs : ∀ t ∈ fs, (t.first.any fun c => toks.contains c) = false) :
    starts toks rest = false := by
  cases rest with
  | nil => rfl
  | cons t rest => exact hfs t (h t rfl)

lemma starts_args (h : Args us ws rs) (hrest : starts toks rest = false) :
    starts toks (us ++ rest) = false := by
  cases h with
  | nil => exact hrest
  | cons _ _ => rfl

lemma redirs_complete (h : Redirs us rs) (hrest : starts (str "<>") rest = false) :
    redirs (us ++ rest) = some (rs, rest) := by
  induction h with
  | nil =>
    rw [nil_append]
    fun_cases redirs rest with
    | case1 => rfl
    | case2 op q eq ts mode fd hop =>
      rw [starts_redir, hop] at hrest
      cases hrest
    | case3 => simp_all
    | case4 => rfl
  | cons hop _ ih => simp [redirs, hop, ih]

lemma args_end {k : Nat} (h : rest = [] ∨ starts (str "|)&;") rest = true) :
    args k rest = some (([], []), rest) := by
  cases rest with
  | nil => simp [args]
  | cons t rest => cases t with
    | word => cases h <;> contradiction
    | _ => rw [args, if_pos h] <;> simp

lemma args_complete {k : Nat} (h : Args us ws rs) (hrest : Follow [.bar, .amp, .semi, .rparen] rest)
    (hk : ws.length ≤ k) : args k (us ++ rest) = some ((ws, rs), rest) := by
  induction h generalizing k with
  | nil =>
    refine args_end ?_
    cases rest with
    | nil => exact .inl rfl
    | cons t rest =>
      have ht := hrest t rfl
      cases t <;> first | exact .inr rfl | simp at ht
  | cons hr ha ih =>
    obtain ⟨k, rfl⟩ := Nat.exists_eq_succ_of_ne_zero (Nat.ne_of_gt (Nat.zero_lt_of_lt hk))
    simp [args, redirs_complete hr (starts_args ha (hrest.starts (by decide))),
      ih (Nat.le_of_succ_le_succ hk)]

lemma amps_complete (hrest : starts (str "&") rest = false) (k : Nat) :
    ((List.replicate k Token.amp ++ rest).takeWhile (· = .amp)).length = k ∧
      (List.replicate k Token.amp ++ rest).dropWhile (· = .amp) = rest := by
  have hhead : ∀ t, rest.head? = some t → ¬ (t = .amp) := by
    rintro t ht rfl
    obtain ⟨rest', rfl⟩ := head?_eq_some_iff.mp ht
    cases hrest
  induction k with
  | zero =>
    cases rest with
    | nil => exact ⟨rfl, rfl⟩
    | cons t rest => simp [hhead t rfl]
  | succ k ih => simpa [replicate_succ] using ih

end Follow

/-- With the count `n`, the parser finds every derivation that is short enough. -/
structure Complete (n : Nat) : Prop where
  line : ∀ us rest t, Line us t → Follow [.rparen] rest → 4 * us.length + 4 ≤ n →
    line n (us ++ rest) = some (t, rest)
  pipe : ∀ us rest t, Pipe us t → Follow [.amp, .semi, .rparen] rest → 4 * us.length + 3 ≤ n →
    pipe n (us ++ rest) = some (t, rest)
  block : ∀ us vs rest t rs, Line us t → Redirs vs rs → starts (str "<>") rest = false →
    4 * us.length + 5 ≤ n → block n (.lparen :: (us ++ .rparen :: (vs ++ rest))) = some
      (wrap t rs, rest)
  exec : ∀ us rest t, Exec us t → Follow [.bar, .amp, .semi, .rparen] rest → 4 * us.length + 2 ≤ n →
    exec n (us ++ rest) = some (t, rest)

section Complete

variable {us vs rest : List Token} {t : Tree} {rs : List Redir} {n : Nat}

lemma complete_line (ih : Complete n) (h : Line us t) (hrest : Follow [.rparen] rest)
    (hn : 4 * us.length + 4 ≤ n + 1) : line (n + 1) (us ++ rest) = some (t, rest) := by
  cases h with
  | @last us t k hpipe =>
    rw [length_append] at hn
    obtain ⟨hk, hdrop⟩ := amps_complete (hrest.starts (by decide)) k
    have hsemi : starts (str ";") rest = false := hrest.starts (by decide)
    rw [line, append_assoc, ih.pipe us _ t hpipe
      (follow_replicate (hrest.mono (by simp)) (by simp) k) (by omega)]
    simp only [Option.bind_eq_bind, Option.bind_some, hk, hdrop, hsemi]
    rfl
  | @list us vs t u k hpipe hline =>
    simp only [length_append, length_cons] at hn
    obtain ⟨hk, hdrop⟩ := @amps_complete (.semi :: (vs ++ rest)) rfl k
    simp only [append_assoc, cons_append]
    rw [line, ih.pipe us _ t hpipe (follow_replicate (follow_cons (by simp))
      (by simp) k) (by omega)]
    simp only [Option.bind_eq_bind, Option.bind_some, hk, hdrop, tail_cons,
      ih.line vs rest u hline hrest (by omega)]
    rfl

lemma complete_pipe (ih : Complete n) (h : Pipe us t) (hrest : Follow [.amp, .semi, .rparen] rest)
    (hn : 4 * us.length + 3 ≤ n + 1) : pipe (n + 1) (us ++ rest) = some (t, rest) := by
  cases h with
  | last hexec =>
    have hbar : starts (str "|") rest = false := hrest.starts (by decide)
    rw [pipe, ih.exec us rest t hexec (hrest.mono (by simp)) (by omega)]
    simp [hbar]
  | @pipe us vs t u hexec hpipe =>
    simp only [length_append, length_cons] at hn
    rw [append_assoc, cons_append, pipe, ih.exec us _ t hexec (follow_cons (by simp)) (by omega)]
    simp only [Option.bind_eq_bind, Option.bind_some, tail_cons,
      ih.pipe vs rest u hpipe hrest (by omega)]
    rfl

lemma complete_block (ih : Complete n) (h : Line us t) (hr : Redirs vs rs)
    (hrest : starts (str "<>") rest = false) (hn : 4 * us.length + 5 ≤ n + 1) :
    block (n + 1) (.lparen :: (us ++ .rparen :: (vs ++ rest))) = some (wrap t rs, rest) := by
  rw [block, tail_cons, ih.line us _ t h (follow_cons (by simp)) (by omega)]
  simp only [Option.bind_eq_bind, Option.bind_some, tail_cons, redirs_complete hr hrest]
  rfl

lemma complete_exec (ih : Complete n) (h : Exec us t)
    (hrest : Follow [.bar, .amp, .semi, .rparen] rest)
    (hn : 4 * us.length + 2 ≤ n + 1) : exec (n + 1) (us ++ rest) = some (t, rest) := by
  rw [exec]
  cases h with
  | @block us vs t rs hline hrs =>
    simp only [length_append, length_cons] at hn
    simp only [cons_append, append_assoc]
    exact ih.block us vs rest t rs hline hrs (hrest.starts (by decide)) (by omega)
  | @simple us vs ws rs rs' hrs hargs hlen =>
    have hparen : starts (str "(") (us ++ (vs ++ rest)) = false := by
      have hnext : starts (str "(") (vs ++ rest) = false :=
        starts_args hargs (hrest.starts (by decide))
      cases hrs with
      | nil => exact hnext
      | @cons op _ _ _ _ _ _ hop _ => cases op <;> first | rfl | cases hop
    rw [append_assoc, hparen, redirs_complete hrs (starts_args hargs (hrest.starts (by decide)))]
    simp only [Option.bind_eq_bind, Option.bind_some, args_complete hargs hrest hlen]
    rfl

lemma complete : ∀ n, Complete n
  | 0 => ⟨fun _ _ _ _ _ h => by omega, fun _ _ _ _ _ h => by
      omega, fun _ _ _ _ _ _ _ _ h => by omega,
    fun _ _ _ _ _ h => by omega⟩
  | n + 1 => ⟨fun _ _ _ => complete_line (complete n), fun _ _ _ => complete_pipe (complete n),
    fun _ _ _ _ _ => complete_block (complete n), fun _ _ _ => complete_exec (complete n)⟩

/-- The parser finds exactly the derivations. -/
lemma line_iff (hn : 4 * us.length + 4 ≤ n) : line n us = some (t, []) ↔ Line us t := by
  constructor
  · intro h
    obtain ⟨vs, hvs, hline⟩ := (sound n).line us _ h
    rwa [hvs, append_nil]
  · intro h
    simpa using (complete n).line us [] t h follow_nil hn

end Complete

end Grammar

/-! ### What the tree in memory stands for -/

/-- The node of type `EXEC` with the arguments `ws`, and null pointers after them. -/
def Execcmd.of (ws : List Word) : Execcmd where
  argv i := ws[i]?.map Prod.fst
  eargv i := ws[i]?.map Prod.snd

inductive Shows (execs : List Execcmd) : Cmd → Tree → Prop
  | exec {k : Nat} {ws : List Word} (hk : execs[k]? = some (.of ws)) (hlen : ws.length < MAXARGS) :
      Shows execs (.exec k) (.exec ws)
  | redir {cmd : Cmd} {t : Tree} {q eq mode fd : Nat} (h : Shows execs cmd t) :
      Shows execs (.redir cmd q eq mode fd) (.redir t (q, eq) mode fd)
  | pipe {left right : Cmd} {t u : Tree} (h : Shows execs left t) (hr : Shows execs right u) :
      Shows execs (.pipe left right) (.pipe t u)
  | list {left right : Cmd} {t u : Tree} (h : Shows execs left t) (hr : Shows execs right u) :
      Shows execs (.list left right) (.list t u)
  | back {cmd : Cmd} {t : Tree} (h : Shows execs cmd t) : Shows execs (.back cmd) (.back t)

/-- The nodes that `parseredirs` puts around a node. -/
def wrapCmd (cmd : Cmd) (rs : List Redir) : Cmd :=
  rs.foldl (fun cmd r => .redir cmd r.file.1 r.file.2 r.mode r.fd) cmd

section Shows

variable {execs : List Execcmd} {cmd : Cmd} {t : Tree} {ws : List Word} {rs : List Redir}

lemma Shows.mono {execs' : List Execcmd} (h : Shows execs cmd t) (hpre : execs <+: execs') :
    Shows execs' cmd t := by
  obtain ⟨new, rfl⟩ := hpre
  induction h with
  | exec hk hlen =>
    refine .exec ?_ hlen
    rw [getElem?_append_left (List.getElem?_eq_some_iff.mp hk).1, hk]
  | redir _ ih => exact .redir ih
  | pipe _ _ ih ih' => exact .pipe ih ih'
  | list _ _ ih ih' => exact .list ih ih'
  | back _ ih => exact .back ih

lemma Shows.wrap (h : Shows execs cmd t) (rs : List Redir) :
    Shows execs (wrapCmd cmd rs) (wrap t rs) := by
  induction rs generalizing cmd t with
  | nil => exact h
  | cons r rs ih => exact ih (.redir h)

lemma Shows.backs (h : Shows execs cmd t) (k : Nat) :
    Shows execs (Cmd.back^[k] cmd) (Tree.back^[k] t) := by
  induction k generalizing cmd t with
  | zero => exact h
  | succ k ih => exact ih (.back h)

lemma wrapCmd_append (cmd : Cmd) (rs rs' : List Redir) :
    wrapCmd cmd (rs ++ rs') = wrapCmd (wrapCmd cmd rs) rs' := foldl_append

lemma upd_getElem? {α : Type} (l : List α) (f : α → Nat) (a : α) :
    upd (fun i => l[i]?.map f) l.length (some (f a)) = fun i => (l ++ [a])[i]?.map f := by
  funext i
  rcases Nat.lt_trichotomy i l.length with h | h | h
  · rw [upd_ne (Nat.ne_of_lt h), getElem?_append_left h]
  · rw [h, upd_same, getElem?_concat_length, Option.map_some]
  · rw [upd_ne (Nat.ne_of_gt h), List.getElem?_eq_none h.le,
      List.getElem?_eq_none (by rw [length_append]; exact h)]

/-- An argument is added. -/
lemma Execcmd.of_concat (ws : List Word) (w : Word) : Execcmd.of (ws ++ [w]) =
    { argv := upd (Execcmd.of ws).argv ws.length (some w.1),
      eargv := upd (Execcmd.of ws).eargv ws.length (some w.2) } := by
  rw [Execcmd.of, ← upd_getElem? ws Prod.fst w, ← upd_getElem? ws Prod.snd w]
  rfl

/-- There is a null pointer after the last argument already. -/
lemma Execcmd.of_none (ws : List Word) :
    { argv := upd (Execcmd.of ws).argv ws.length none,
      eargv := upd (Execcmd.of ws).eargv ws.length none } = Execcmd.of ws := by
  have h : ∀ f : Word → Nat, none = (fun i => ws[i]?.map f) ws.length := fun f => by simp
  rw [Execcmd.of]
  dsimp only
  nth_rewrite 1 [h Prod.fst]
  nth_rewrite 1 [h Prod.snd]
  rw [upd_eq_self, upd_eq_self]

end Shows

lemma Token.first_of_word {t : Token} (h : t.tok = .word) : t.first = none := by
  cases t <;> first | rfl | cases h

/-! ### The code does what the parser does -/

/-- The parser takes tokens off the front, and so does the code. `Q` relates what they return. -/
def Agrees {α β : Type} (b : List Byte) (r : Option (α × List Token)) (Q : α → β → Parse → Prop)
    (x : β) (p : Parse) : Prop :=
  ∃ a rest, r = some (a, rest) ∧ At b p rest ∧ Q a x p

/-- The parser fails, and the code panics, not because of the count. -/
def Fails {α : Type} (r : Option α) (e : Option Panic) (_ : Parse) : Prop :=
  r = none ∧ ∃ m, e = some m ∧ m ≠ .count

section Rules

variable {α β γ δ : Type} {b : List Byte} {p : Parse} {q : P β} {Q : α → β → Parse → Prop}
  {r : Option (α × List Token)} {f : α × List Token → Option (γ × List Token)}

/-- The rule for a last call. -/
lemma wp_agrees_last {R : γ → β → Parse → Prop} (hq : q.wp (Agrees b r Q) (Fails r) p)
    (h : ∀ a rest x p', At b p' rest → Q a x p' → Agrees b (f (a, rest)) R x p') :
    q.wp (Agrees b (r >>= f) R) (Fails (r >>= f)) p := by
  refine wp_mono hq ?_ ?_
  · rintro x p' ⟨a, rest, rfl, hat, hQ⟩
    exact h a rest x p' hat hQ
  · rintro e p' ⟨rfl, he⟩
    exact ⟨rfl, he⟩

/-- The rule for a call with something after it. -/
lemma wp_agrees {g : β → P δ} {R : γ → δ → Parse → Prop} (hq : q.wp (Agrees b r Q) (Fails r) p)
    (h : ∀ a rest x p', r = some (a, rest) → At b p' rest → Q a x p' →
      (g x).wp (Agrees b (f (a, rest)) R) (Fails (f (a, rest))) p') :
    (q >>= g).wp (Agrees b (r >>= f) R) (Fails (r >>= f)) p := by
  refine wp_bind.mpr (wp_mono hq ?_ ?_)
  · rintro x p' ⟨a, rest, rfl, hat, hQ⟩
    exact h a rest x p' rfl hat hQ
  · rintro e p' ⟨rfl, he⟩
    exact ⟨rfl, he⟩

end Rules

section Loops

variable {b : List Byte} (hb : ∀ c ∈ b, c ≠ 0)

include hb

lemma wp_parseredirs : ∀ n p ts cmd, At b p ts → ts.length < n → (parseredirs b n cmd).wp
    (Agrees b (Grammar.redirs ts) fun rs cmd' p' => cmd' = wrapCmd cmd rs ∧ p'.execs = p.execs)
    (Fails (Grammar.redirs ts)) p := by
  intro n
  induction n with
  | zero => exact fun _ _ _ _ h => absurd h (Nat.not_lt_zero _)
  | succ n ih =>
    intro p ts cmd h hlen
    rw [parseredirs]
    refine wp_bind.mpr (wp_peek hb h (asked_symbols (by simp)) fun p1 h1 he1 _ => ?_)
    cases hst : starts (str "<>") ts with
    | false => exact ⟨[], ts, Grammar.redirs_complete .nil hst, h1, rfl, he1⟩
    | true =>
      obtain _ | ⟨op, ts⟩ := ts
      · cases hst
      refine wp_bind.mpr (wp_gettoken hb h1 fun _ _ p2 h2 he2 _ => ?_)
      cases ts with
      | nil =>
        refine wp_bind.mpr (wp_gettoken_nil hb h2 fun q eq p3 _ _ => ?_)
        exact ⟨by simp [Grammar.redirs, hst], .missingFile, rfl, by simp⟩
      | cons t ts =>
        refine wp_bind.mpr (wp_gettoken hb h2 fun q eq p3 h3 he3 hword => ?_)
        by_cases ht : t.tok = .word
        · obtain rfl := hword (Token.first_of_word ht)
          have hex := he3.trans (he2.trans he1)
          rw [Grammar.starts_redir, Option.isSome_iff_exists] at hst
          obtain ⟨⟨mode, fd⟩, hop⟩ := hst
          have hgo := wp_agrees_last
            (f := fun x => some ((⟨(q, eq), mode, fd⟩ : Redir) :: x.1, x.2))
            (R := fun rs cmd' p' => cmd' = wrapCmd cmd rs ∧ p'.execs = p.execs)
            (ih p3 ts (.redir cmd q eq mode fd) h3 (by simp only [length_cons] at hlen; omega))
            fun rs rest cmd' p' hat hQ => ⟨_, rest, rfl, hat, hQ.1, hQ.2.trans hex⟩
          rw [Grammar.redirs, hop]
          cases op <;> cases hop <;> exact hgo
        · simp only [ht, ne_eq, not_false_eq_true, if_true]
          refine ⟨?_, .missingFile, rfl, by simp⟩
          cases t with
          | word => exact absurd rfl ht
          | _ => rw [Grammar.redirs, if_pos hst]; simp

lemma At.length_le {p : Parse} {ts : List Token} (h : At b p ts) : ts.length < b.length + 1 := by
  have := length_tokens hb h.le
  rw [h.tokens] at this
  omega

omit hb in
lemma wp_execcmd {α : Type} {f : Nat → P α} {Q : α → Parse → Prop} {E : Option Panic → Parse → Prop}
    {p : Parse} : (execcmd >>= f).wp Q E p ↔
      (f p.execs.length).wp Q E { p with execs := p.execs ++ [{}] } := Iff.rfl

omit hb in
/-- The last node changes. -/
lemma modify_last (pre : List Execcmd) (c : Execcmd) (f : Execcmd → Execcmd) :
    (pre ++ [c]).modify pre.length f = pre ++ [f c] := by
  induction pre with
  | nil => rfl
  | cons d pre ih => exact congrArg (d :: ·) ih

/-- The loop of `parseexec` goes on from the words `ws`. -/
lemma wp_parseexecLoop (pre : List Execcmd) : ∀ n p ts ws ret k, At b p ts → ts.length < n →
    ws.length + k + 1 = MAXARGS → p.execs = pre ++ [.of ws] →
    (parseexecLoop b pre.length n ws.length ret).wp
      (Agrees b (Grammar.args k ts) fun y r p' => r = ((ws ++ y.1).length, wrapCmd ret y.2) ∧
        p'.execs = pre ++ [.of (ws ++ y.1)]) (Fails (Grammar.args k ts)) p := by
  intro n
  induction n with
  | zero => exact fun _ _ _ _ _ _ h => absurd h (Nat.not_lt_zero _)
  | succ n ih =>
    intro p ts ws ret k h hlen hk hex
    have hdone : ∀ p', At b p' ts → p'.execs = p.execs → ts = [] ∨ starts (str "|)&;") ts = true →
        Agrees b (Grammar.args k ts) (fun y r p' => r = ((ws ++ y.1).length, wrapCmd ret y.2) ∧
          p'.execs = pre ++ [.of (ws ++ y.1)]) (ws.length, ret) p' := by
      intro p' h' he hend
      refine ⟨([], []), ts, Grammar.args_end hend, h', ?_⟩
      dsimp only
      rw [append_nil]
      exact ⟨rfl, he.trans hex⟩
    rw [parseexecLoop]
    refine wp_bind.mpr (wp_peek hb h (asked_symbols (by simp)) fun p1 h1 he1 _ => ?_)
    cases hst : starts (str "|)&;") ts with
    | true => exact hdone p1 h1 he1 (.inr hst)
    | false =>
      cases ts with
      | nil =>
        exact wp_bind.mpr (wp_gettoken_nil hb h1 fun _ _ p2 h2 he2 =>
          hdone p2 h2 (he2.trans he1) (.inl rfl))
      | cons t ts =>
        refine wp_bind.mpr (wp_gettoken hb h1 fun q eq p2 h2 he2 hword => ?_)
        have hnul : t.tok ≠ .nul := by cases t <;> simp [Token.tok]
        simp only [hnul, if_false]
        by_cases ht : t.tok = .word
        · obtain rfl := hword (Token.first_of_word ht)
          simp only [ht, ne_eq, not_true_eq_false, if_false]
          refine wp_bind.mpr (wp_modify.mpr ?_)
          cases k with
          | zero =>
            rw [if_pos (by omega)]
            exact ⟨rfl, .tooManyArgs, rfl, by simp⟩
          | succ k =>
            rw [if_neg (by omega), Grammar.args]
            have hset : (p2.execs.modify pre.length fun c =>
                { argv := upd c.argv ws.length (some q), eargv := upd c.eargv ws.length (some eq) })
                  =
                pre ++ [.of (ws ++ [(q, eq)])] := by
              rw [he2, he1, hex, modify_last, Execcmd.of_concat]
            refine wp_agrees (wp_parseredirs hb _ _ ts ret ⟨h2.le, h2.tokens⟩ (h2.length_le hb))
              fun rs rest ret' p3 hrs h3 ⟨hret, he3⟩ => ?_
            obtain ⟨us, hus, -⟩ := Grammar.redirs_sound hrs
            have hgo := ih p3 rest (ws ++ [(q, eq)]) ret' k h3
              (by simp only [hus, length_cons, length_append] at hlen; omega)
              (by simp only [length_append, length_cons, length_nil]; omega)
              (he3.trans hset)
            rw [length_append] at hgo
            refine wp_agrees_last hgo fun y rest r p4 h4 ⟨hr, he4⟩ => ⟨_, rest, rfl, h4, ?_⟩
            simp only [append_assoc, singleton_append] at hr he4
            exact ⟨by rw [hr, hret, wrapCmd_append], he4⟩
        · simp only [ht, ne_eq, not_false_eq_true, if_true]
          refine ⟨?_, .unexpected, rfl, by simp⟩
          cases t with
          | word => exact absurd rfl ht
          | _ => rw [Grammar.args, if_neg (by simp only [hst]; simp)] <;> simp

lemma wp_parselineLoop {E : Option Panic → Parse → Prop} : ∀ n p ts cmd, At b p ts → ts.length < n →
    (parselineLoop b n cmd).wp (fun cmd' p' => At b p' (ts.dropWhile (· = .amp)) ∧
      cmd' = Cmd.back^[(ts.takeWhile (· = .amp)).length] cmd ∧ p'.execs = p.execs) E p := by
  intro n
  induction n with
  | zero => exact fun _ _ _ _ h => absurd h (Nat.not_lt_zero _)
  | succ n ih =>
    intro p ts cmd h hlen
    rw [parselineLoop]
    refine wp_bind.mpr (wp_peek hb h (asked_symbols (by simp)) fun p1 h1 he1 _ => ?_)
    cases hst : starts (str "&") ts with
    | false =>
      obtain ⟨hk, hdrop⟩ := Grammar.amps_complete hst 0
      rw [replicate_zero, nil_append] at hk hdrop
      rw [hk, hdrop]
      exact ⟨h1, rfl, he1⟩
    | true =>
      obtain ⟨ts, rfl⟩ : ∃ ts', ts = .amp :: ts' :=
        ⟨_, Grammar.eq_of_starts (u := .amp) hst rfl rfl (by decide)⟩
      refine wp_bind.mpr (wp_gettoken hb h1 fun _ _ p2 h2 he2 _ => ?_)
      refine wp_mono (ih p2 ts (.back cmd) h2 (Nat.lt_of_succ_lt_succ hlen)) ?_ fun _ _ h => h
      rintro cmd' p3 ⟨h3, hcmd, he3⟩
      exact ⟨h3, hcmd, he3.trans (he2.trans he1)⟩

end Loops

/-- The tree `t` has been built with new nodes. -/
def Built (execs : List Execcmd) (t : Tree) (cmd : Cmd) (p : Parse) : Prop :=
  execs <+: p.execs ∧ Shows p.execs cmd t

/-- The function `q` of the code builds the tree that the parser finds. -/
def Builds (b : List Byte) (q : P Cmd) (r : Option (Tree × List Token)) (p : Parse) : Prop :=
  q.wp (Agrees b r (Built p.execs)) (Fails r) p

/-- What the functions do when the count is `n`. -/
structure Refines (b : List Byte) (n : Nat) : Prop where
  line : ∀ p ts, At b p ts → 4 * ts.length + 4 ≤ n → Builds b (parseline b n) (Grammar.line n ts) p
  pipe : ∀ p ts, At b p ts → 4 * ts.length + 3 ≤ n → Builds b (parsepipe b n) (Grammar.pipe n ts) p
  block : ∀ p ts, At b p ts → starts (str "(") ts = true → 4 * ts.length + 1 ≤ n →
    Builds b (parseblock b n) (Grammar.block n ts) p
  exec : ∀ p ts, At b p ts → 4 * ts.length + 2 ≤ n → Builds b (parseexec b n) (Grammar.exec n ts) p

section Refines

variable {b : List Byte} {n : Nat} {p p' : Parse} {ts : List Token} {t : Tree} {cmd : Cmd}
  (hb : ∀ c ∈ b, c ≠ 0)

lemma Built.congr {execs : List Execcmd} (h : Built execs t cmd p) (he : p'.execs = p.execs) :
    Built execs t cmd p' := by
  unfold Built
  rwa [he]

/-- The second part of a tree is built after the first. -/
lemma Built.trans {execs : List Execcmd} {p1 : Parse} {u : Tree} {right : Cmd}
    (h : Built execs t cmd p1) (he : p.execs = p1.execs) (h' : Built p.execs u right p') :
    execs <+: p'.execs ∧ Shows p'.execs cmd t := by
  rw [he] at h'
  exact ⟨h.1.trans h'.1, h.2.mono h'.1⟩

lemma length_tail_lt {toks : List Byte} (h : starts toks ts = true) :
    ts.tail.length < ts.length := by
  cases ts with
  | nil => cases h
  | cons t ts => exact Nat.lt_succ_self _

lemma Grammar.Takes.length_le {α : Type} {D : List Token → α → Prop} {x : α × List Token}
    (h : Takes D ts x) : x.2.length ≤ ts.length := by
  obtain ⟨us, hus, -⟩ := h
  rw [hus, length_append]
  omega

include hb

lemma refines_block (ih : Refines b n) (h : At b p ts) (hst : starts (str "(") ts = true)
    (hn : 4 * ts.length + 1 ≤ n + 1) :
    Builds b (parseblock b (n + 1)) (Grammar.block (n + 1) ts) p := by
  have hlt := length_tail_lt hst
  rw [parseblock, Grammar.block]
  refine wp_bind.mpr (wp_peek hb h (asked_symbols (by simp)) fun p1 h1 he1 _ => ?_)
  rw [hst, Bool.not_true, if_neg Bool.false_ne_true]
  refine wp_bind.mpr (wp_gettoken_tail hb h1 hst fun _ p2 h2 he2 => ?_)
  refine wp_agrees (ih.line p2 ts.tail h2 (by omega)) fun t rest cmd p3 _ h3 hbuilt => ?_
  refine wp_bind.mpr (wp_peek hb h3 (asked_symbols (by simp)) fun p4 h4 he4 _ => ?_)
  dsimp only
  cases hst' : starts (str ")") rest with
  | false => exact ⟨rfl, .missingParen, rfl, by simp⟩
  | true =>
    refine wp_bind.mpr (wp_gettoken_tail hb h4 hst' fun _ p5 h5 he5 => ?_)
    refine wp_agrees_last (wp_parseredirs hb _ p5 rest.tail cmd h5 (h5.length_le hb))
      fun rs rest cmd' p6 h6 ⟨hcmd, he6⟩ => ⟨_, rest, rfl, h6, ?_⟩
    obtain ⟨hpre, hshows⟩ := hbuilt.congr (he6.trans (he5.trans he4))
    rw [he2, he1] at hpre
    exact ⟨hpre, hcmd ▸ hshows.wrap rs⟩

lemma refines_exec (ih : Refines b n) (h : At b p ts) (hn : 4 * ts.length + 2 ≤ n + 1) :
    Builds b (parseexec b (n + 1)) (Grammar.exec (n + 1) ts) p := by
  rw [parseexec, Grammar.exec]
  refine wp_bind.mpr (wp_peek hb h (asked_symbols (by simp)) fun p1 h1 he1 _ => ?_)
  cases hst : starts (str "(") ts with
  | true =>
    have hgo := ih.block p1 ts h1 hst (by omega)
    unfold Builds at hgo
    rwa [he1] at hgo
  | false =>
    rw [if_neg Bool.false_ne_true, if_neg Bool.false_ne_true, wp_execcmd]
    refine wp_agrees (wp_parseredirs hb _ { p1 with execs := p1.execs ++ [{}] } ts _
      ⟨h1.le, h1.tokens⟩
      (h1.length_le hb)) fun rs rest ret p2 _ h2 ⟨hret, he2⟩ => ?_
    refine wp_agrees (wp_parseexecLoop hb p1.execs _ p2 rest [] ret _ h2 (h2.length_le hb) rfl he2)
      fun y rest r p3 hargs h3 ⟨hr, he3⟩ => ?_
    obtain ⟨vs, -, -, hlen⟩ := Grammar.args_sound hargs
    rw [nil_append] at hr he3
    subst hr hret
    have hset : (p3.execs.modify p1.execs.length fun c =>
        { argv := upd c.argv y.1.length none, eargv := upd c.eargv y.1.length none }) =
        p1.execs ++ [.of y.1] := by
      rw [he3, modify_last, Execcmd.of_none]
    refine ⟨_, rest, rfl, ⟨h3.le, h3.tokens⟩, ?_⟩
    change p.execs <+: p3.execs.modify _ _ ∧ Shows (p3.execs.modify _ _) _ _
    rw [hset, ← wrapCmd_append, he1]
    refine ⟨prefix_append .., Shows.wrap (.exec ?_ (Nat.lt_of_le_of_lt hlen (by decide))) _⟩
    rw [getElem?_concat_length]

lemma refines_pipe (ih : Refines b n) (h : At b p ts) (hn : 4 * ts.length + 3 ≤ n + 1) :
    Builds b (parsepipe b (n + 1)) (Grammar.pipe (n + 1) ts) p := by
  rw [parsepipe, Grammar.pipe]
  refine wp_agrees (ih.exec p ts h (by omega)) fun t rest cmd p1 hexec h1 hbuilt => ?_
  have hle := ((Grammar.sound n).exec _ _ hexec).length_le
  refine wp_bind.mpr (wp_peek hb h1 (asked_symbols (by simp)) fun p2 h2 he2 _ => ?_)
  dsimp only at hle ⊢
  cases hst : starts (str "|") rest with
  | false => exact ⟨t, rest, rfl, h2, hbuilt.congr he2⟩
  | true =>
    have hlt := length_tail_lt hst
    refine wp_bind.mpr (wp_gettoken_tail hb h2 hst fun _ p3 h3 he3 => ?_)
    refine wp_agrees (ih.pipe p3 rest.tail h3 (by omega))
      fun u rest right p4 _ h4 hright => ⟨_, rest, rfl, h4, ?_⟩
    obtain ⟨hpre, hshows⟩ := hbuilt.trans (he3.trans he2) hright
    exact ⟨hpre, .pipe hshows hright.2⟩

lemma refines_line (ih : Refines b n) (h : At b p ts) (hn : 4 * ts.length + 4 ≤ n + 1) :
    Builds b (parseline b (n + 1)) (Grammar.line (n + 1) ts) p := by
  rw [parseline, Grammar.line]
  refine wp_agrees (ih.pipe p ts h (by omega)) fun t rest cmd p1 hpipe h1 hbuilt => ?_
  have hle := ((Grammar.sound n).pipe _ _ hpipe).length_le
  have hdrop := (dropWhile_sublist (l := rest) (· = Token.amp)).length_le
  refine wp_call (wp_parselineLoop hb _ p1 rest cmd h1 (h1.length_le hb)) ?_
  rintro cmd' p2 ⟨h2, rfl, he2⟩
  refine wp_bind.mpr (wp_peek hb h2 (asked_symbols (by simp)) fun p3 h3 he3 _ => ?_)
  dsimp only at hle ⊢
  have hex : p3.execs = p1.execs := he3.trans he2
  cases hst : starts (str ";") (rest.dropWhile (· = .amp)) with
  | false =>
    obtain ⟨hpre, hshows⟩ := hbuilt.congr hex
    exact ⟨_, _, rfl, h3, hpre, hshows.backs _⟩
  | true =>
    have hlt := length_tail_lt hst
    refine wp_bind.mpr (wp_gettoken_tail hb h3 hst fun _ p4 h4 he4 => ?_)
    refine wp_agrees (ih.line p4 _ h4 (by omega))
      fun u rest right p5 _ h5 hright => ⟨_, rest, rfl, h5, ?_⟩
    obtain ⟨hpre, hshows⟩ := hbuilt.trans (he4.trans hex) hright
    exact ⟨hpre, .list (hshows.backs _) hright.2⟩

lemma refines : ∀ n, Refines b n
  | 0 => ⟨fun _ _ _ h => by omega, fun _ _ _ h => by omega, fun _ _ _ _ h => by omega,
    fun _ _ _ h => by omega⟩
  | n + 1 => ⟨fun _ _ => refines_line hb (refines n), fun _ _ => refines_pipe hb (refines n),
    fun _ _ => refines_block hb (refines n), fun _ _ => refines_exec hb (refines n)⟩

end Refines

/-! ### The whole line -/

/-- `parsecmd` returns the tree `t`. -/
def Parses (b : List Byte) (t : Tree) : Prop :=
  ∃ r p, (parsecmd b).run {} = .ok r p ∧ Shows p.execs r.1 t

/-- `parsecmd` panics. -/
def Panics (b : List Byte) : Prop := ∃ e p, (parsecmd b).run {} = .stop (some e) p ∧ e ≠ .count

section Parsecmd

variable {b : List Byte} {t u : Tree} {execs : List Execcmd} {cmd : Cmd}

lemma Execcmd.of_inj {ws ws' : List Word} (h : Execcmd.of ws = Execcmd.of ws') : ws = ws' := by
  have hfst := congrArg Execcmd.argv h
  have hsnd := congrArg Execcmd.eargv h
  refine ext_getElem? fun i => ?_
  have h1 : ws[i]?.map Prod.fst = ws'[i]?.map Prod.fst := congrFun hfst i
  have h2 : ws[i]?.map Prod.snd = ws'[i]?.map Prod.snd := congrFun hsnd i
  cases hw : ws[i]? <;> cases hw' : ws'[i]? <;> simp_all [Prod.ext_iff]

/-- A node stands for one tree. -/
lemma Shows.unique (h : Shows execs cmd t) (h' : Shows execs cmd u) : t = u := by
  induction h generalizing u with
  | exec hk _ =>
    cases h' with
    | exec hk' _ => rw [Execcmd.of_inj (Option.some.inj (hk.symm.trans hk'))]
  | redir _ ih =>
    cases h' with
    | redir h' => rw [ih h']
  | pipe _ _ ih ih' =>
    cases h' with
    | pipe h h' => rw [ih h, ih' h']
  | list _ _ ih ih' =>
    cases h' with
    | list h h' => rw [ih h, ih' h']
  | back _ ih =>
    cases h' with
    | back h' => rw [ih h']

lemma at_start (b : List Byte) : At b {} (tokens b 0) := ⟨Nat.zero_le _, rfl⟩

/-- Only white space may be left. -/
lemma wp_leftovers {Q : Cmd × Bytes → Parse → Prop} {E : Option Panic → Parse → Prop} {p : Parse}
    {rest : List Token} (hb : ∀ c ∈ b, c ≠ 0) (h : At b p rest)
    (hend : ∀ p', rest = [] → p'.execs = p.execs →
      Q (cmd, nulterminate p.execs cmd fun i => b.getD i 0) p')
    (hleft : ∀ p', rest ≠ [] → E (some .leftovers) p') :
    (do let _ ← peek b []
        let s ← .get () Parse.s
        if s ≠ b.length then .panic .leftovers
        else
          let execs ← .get () Parse.execs
          pure (cmd, nulterminate execs cmd fun i => b.getD i 0) : P (Cmd × Bytes)).wp Q E p := by
  refine wp_bind.mpr (wp_peek hb h (by simp) fun p1 _ he1 hs => ?_)
  rw [wp_bind, wp_get]
  by_cases hrest : rest = []
  · rw [if_neg (by simpa using hs.mpr hrest), wp_bind, wp_get, he1]
    exact hend p1 hrest he1
  · rw [if_pos fun heq => hrest (hs.mp heq)]
    exact hleft p1 hrest

lemma wp_parsecmd (hb : ∀ c ∈ b, c ≠ 0) : (parsecmd b).wp
    (fun r p => ∃ t, Line (tokens b 0) t ∧ Shows p.execs r.1 t ∧
      r.2 = nulterminate p.execs r.1 fun i => b.getD i 0)
    (fun e _ => (∀ t, ¬ Line (tokens b 0) t) ∧ ∃ m, e = some m ∧ m ≠ .count) {} := by
  have hbound : 4 * (tokens b 0).length + 4 ≤ 4 * b.length + 4 := by
    have := (at_start b).length_le hb
    omega
  have hiff : ∀ t, Grammar.line _ (tokens b 0) = some (t, []) ↔ Line (tokens b 0) t :=
    fun t => Grammar.line_iff hbound
  rw [parsecmd]
  refine wp_bind.mpr (wp_mono ((refines hb _).line {} _ (at_start b) hbound) ?_ ?_)
  · rintro cmd p ⟨t, rest, hline, h, -, hshows⟩
    refine wp_leftovers hb h (fun p' hrest he => ?_) fun p' hrest =>
      ⟨fun t ht => ?_, .leftovers, rfl, by simp⟩
    · rw [hrest] at hline
      exact ⟨t, (hiff t).mp hline, by rw [he]; exact hshows, by rw [he]⟩
    · have heq := hline.symm.trans ((hiff t).mpr ht)
      exact hrest (Prod.ext_iff.mp (Option.some.inj heq)).2
  · rintro e p ⟨hnone, he⟩
    exact ⟨fun t ht => absurd (hnone.symm.trans ((hiff t).mpr ht)) (by simp), he⟩

lemma line_unique (h : Line (tokens b 0) t) (h' : Line (tokens b 0) u) : t = u := by
  have heq := ((Grammar.line_iff le_rfl).mpr h).symm.trans ((Grammar.line_iff le_rfl).mpr h')
  exact (Prod.ext_iff.mp (Option.some.inj heq)).1

lemma wp_parsecmd_complete (hb : ∀ c ∈ b, c ≠ 0) (hline : Line (tokens b 0) t) :
    (parsecmd b).wp (fun r p => Shows p.execs r.1 t) (fun _ _ => False) {} := by
  refine wp_mono (wp_parsecmd hb) ?_ fun _ _ h => h.1 t hline
  rintro r p ⟨u, hline', hshows, -⟩
  rwa [line_unique hline hline']

/-- `parsecmd` returns exactly the trees that its line derives, and panics if there is none. -/
theorem parsecmd_grammar (hb : ∀ c ∈ b, c ≠ 0) :
    (∀ t, Parses b t ↔ Line (tokens b 0) t) ∧ ((∀ t, ¬ Line (tokens b 0) t) → Panics b) := by
  have hsound := wp_parsecmd hb
  refine ⟨fun t => ⟨?_, fun hline => ?_⟩, fun hno => ?_⟩
  · rintro ⟨r, p, hrun, hshows⟩
    obtain ⟨u, hline, hshows', -⟩ := wp_ok hsound hrun
    rwa [hshows.unique hshows']
  · obtain ⟨r, p, hrun, hshows⟩ := wp_total (wp_parsecmd_complete hb hline)
    exact ⟨r, p, hrun, hshows⟩
  · rw [wp] at hsound
    cases hrun : (parsecmd b).run {} with
    | ok r p =>
      rw [hrun] at hsound
      obtain ⟨t, hline, -⟩ := hsound
      exact absurd hline (hno t)
    | stop e p =>
      rw [hrun] at hsound
      obtain ⟨-, m, rfl, hm⟩ := hsound
      exact ⟨m, p, hrun, hm⟩

/-- The line `a|b&`. -/
theorem parsecmd_grammar_pipe :
    Parses (str "a|b&") (.back (.pipe (.exec [(0, 1)]) (.exec [(2, 3)]))) := by
  have htok : tokens (str "a|b&") 0 = [.word 0 1, .bar, .word 2 3] ++ List.replicate 1 .amp := by
    decide +kernel
  have hword : ∀ q eq, Exec [.word q eq] (.exec [(q, eq)]) :=
    fun q eq => .simple .nil (.cons .nil .nil) (by simp [MAXARGS])
  refine ((parsecmd_grammar (b := str "a|b&") (by decide)).1 _).mpr ?_
  rw [htok]
  exact .last 1 (.pipe (hword 0 1) (.last (hword 2 3)))

end Parsecmd

end Xv6.User.Sh
