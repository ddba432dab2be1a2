import Xv6.Lib.Prog
import Xv6.Param
import Xv6.User.History

/-!
# The parser of the shell: `sh.c`

The line is the list of its characters, without the NUL, and a `char*` into it is an offset. Parsing
does not write to the line; `nulterminate` does, at the end. The nodes of the tree that is built are
values, except for those of type `EXEC`: `parseexec` still fills its node after redirections have
been put around it, so these nodes are kept in an array and referred to by their index. `malloc`
succeeds.

Loops and recursive calls count down, and a count of 0 ends in a panic of its own.
-/

namespace Xv6.User.Sh

open Lib

def MAXARGS : Nat := 10

def whitespace : List Byte := str " \t\r\n\x0b"

def symbols : List Byte := str "<|>&;()"

/-! ### The tree -/

/-- A command of type `EXEC`. -/
structure Execcmd where
  argv : Nat → Option Nat := fun _ => none
  eargv : Nat → Option Nat := fun _ => none

inductive Cmd
  | exec (cmd : Nat)
  | redir (cmd : Cmd) (file efile mode fd : Nat)
  | pipe (left right : Cmd)
  | list (left right : Cmd)
  | back (cmd : Cmd)
  deriving DecidableEq, Repr

inductive Panic
  /-- "missing file for redirection" -/
  | missingFile
  /-- "parseblock" -/
  | parseblock
  /-- "syntax - missing )" -/
  | missingParen
  /-- "syntax", in `parseexec` -/
  | unexpected
  /-- "too many args" -/
  | tooManyArgs
  /-- "syntax", in `parsecmd` -/
  | leftovers
  /-- Not in the source: the loops have been counted down. -/
  | count
  deriving DecidableEq, Repr

/-- The pointer `*ps` that all functions share, and the commands of type `EXEC` so far. -/
structure Parse where
  s : Nat := 0
  execs : List Execcmd := []

abbrev P := Prog Unit Parse Panic

/-! ### Tokens -/

/-- What `gettoken` returns: `0`, a symbol, `'+'` or `'a'`. -/
inductive Tok
  | nul
  | bar
  | lparen
  | rparen
  | semi
  | amp
  | lt
  | gt
  | append
  | word
  deriving DecidableEq, Repr

/-- `while(s < es && f(*s)) s++;`. -/
def skip (b : List Byte) (f : Byte → Bool) (s : Nat) : Nat := s + ((b.drop s).takeWhile f).length

/-- `strchr(whitespace, c)`. -/
def isSpace (c : Byte) : Bool := whitespace.contains c

/-- `!strchr(whitespace, c) && !strchr(symbols, c)`. -/
def inWord (c : Byte) : Bool := !whitespace.contains c && !symbols.contains c

/-- The `switch` of `gettoken` on the character at `s`: the token and where it ends. -/
def scan (b : List Byte) (s : Nat) : Tok × Nat :=
  let c := b.getD s 0
  if c = 0 then (.nul, s)
  else if c = 124 then (.bar, s + 1)
  else if c = 40 then (.lparen, s + 1)
  else if c = 41 then (.rparen, s + 1)
  else if c = 59 then (.semi, s + 1)
  else if c = 38 then (.amp, s + 1)
  else if c = 60 then (.lt, s + 1)
  else if c = 62 then if b.getD (s + 1) 0 = 62 then (.append, s + 2) else (.gt, s + 1)
  else (.word, skip b inWord s)

/-- The next token, with where it starts and ends. -/
def gettoken (b : List Byte) : P (Tok × Nat × Nat) :=
  .act () (fun _ => true)
    (fun p => { p with s := skip b isSpace (scan b (skip b isSpace p.s)).2 })
    fun p =>
      let q := skip b isSpace p.s
      .ret ((scan b q).1, q, (scan b q).2)

/-- Is the next character other than white space one of `toks`? -/
def peek (b : List Byte) (toks : List Byte) : P Bool :=
  .act () (fun _ => true)
    (fun p => { p with s := skip b isSpace p.s })
    fun p =>
      let c := b.getD (skip b isSpace p.s) 0
      .ret (c ≠ 0 && toks.contains c)

/-! ### Constructors -/

/-- A new node of type `EXEC`. -/
def execcmd : P Nat :=
  .act () (fun _ => true) (fun p => { p with execs := p.execs ++ [{}] }) fun p =>
    .ret p.execs.length

/-- `cmd->argv[argc] = q; cmd->eargv[argc] = eq;`. -/
def setArg (cmd argc : Nat) (q eq : Option Nat) : P Unit :=
  .modify () fun p => { p with execs := p.execs.modify cmd fun c =>
    { argv := upd c.argv argc q, eargv := upd c.eargv argc eq } }

/-! ### Parsing -/

/-- The loop of `parseredirs`. -/
def parseredirs (b : List Byte) : Nat → Cmd → P Cmd
  | 0, _ => .panic .count
  | n + 1, cmd => do
    if ← peek b (str "<>") then
      let (tok, _, _) ← gettoken b
      let (t, q, eq) ← gettoken b
      if t ≠ .word then .panic .missingFile
      else
        match tok with
        | .lt => parseredirs b n (.redir cmd q eq O_RDONLY 0)
        | .gt => parseredirs b n (.redir cmd q eq (O_WRONLY ||| O_CREATE) 1)
        | .append => parseredirs b n (.redir cmd q eq (O_WRONLY ||| O_CREATE) 1)
        | _ => parseredirs b n cmd
    else pure cmd

/-- The loop of `parseexec`: the final `argc` and the tree around the node `cmd`. -/
def parseexecLoop (b : List Byte) (cmd : Nat) : Nat → Nat → Cmd → P (Nat × Cmd)
  | 0, _, _ => .panic .count
  | n + 1, argc, ret => do
    if ← peek b (str "|)&;") then pure (argc, ret)
    else
      let (tok, q, eq) ← gettoken b
      if tok = .nul then pure (argc, ret)
      else if tok ≠ .word then .panic .unexpected
      else
        setArg cmd argc (some q) (some eq)
        if MAXARGS ≤ argc + 1 then .panic .tooManyArgs
        else
          let ret ← parseredirs b (b.length + 1) ret
          parseexecLoop b cmd n (argc + 1) ret

/-- The loop of `parseline` over `&`. -/
def parselineLoop (b : List Byte) : Nat → Cmd → P Cmd
  | 0, _ => .panic .count
  | n + 1, cmd => do
    if ← peek b (str "&") then
      let _ ← gettoken b
      parselineLoop b n (.back cmd)
    else pure cmd

mutual

def parseline (b : List Byte) : Nat → P Cmd
  | 0 => .panic .count
  | n + 1 => do
    let cmd ← parsepipe b n
    let cmd ← parselineLoop b (b.length + 1) cmd
    if ← peek b (str ";") then
      let _ ← gettoken b
      let right ← parseline b n
      pure (.list cmd right)
    else pure cmd

def parsepipe (b : List Byte) : Nat → P Cmd
  | 0 => .panic .count
  | n + 1 => do
    let cmd ← parseexec b n
    if ← peek b (str "|") then
      let _ ← gettoken b
      let right ← parsepipe b n
      pure (.pipe cmd right)
    else pure cmd

def parseblock (b : List Byte) : Nat → P Cmd
  | 0 => .panic .count
  | n + 1 => do
    if !(← peek b (str "(")) then .panic .parseblock
    else
      let _ ← gettoken b
      let cmd ← parseline b n
      if !(← peek b (str ")")) then .panic .missingParen
      else
        let _ ← gettoken b
        parseredirs b (b.length + 1) cmd

def parseexec (b : List Byte) : Nat → P Cmd
  | 0 => .panic .count
  | n + 1 => do
    if ← peek b (str "(") then parseblock b n
    else
      let cmd ← execcmd
      let ret ← parseredirs b (b.length + 1) (.exec cmd)
      let (argc, ret) ← parseexecLoop b cmd (b.length + 1) 0 ret
      setArg cmd argc none none
      pure ret

end

/-- The loop of `nulterminate` over the arguments from number `i` on. -/
def nulterminateLoop (c : Execcmd) (i : Nat) : Nat → Bytes → Bytes
  | 0, buf => buf
  | n + 1, buf =>
    match c.argv i with
    | none => buf
    | some _ => nulterminateLoop c (i + 1) n (upd buf ((c.eargv i).getD 0) 0)

/-- NUL-terminate all the counted strings. -/
def nulterminate (execs : List Execcmd) : Cmd → Bytes → Bytes
  | .exec cmd, buf => nulterminateLoop (execs.getD cmd {}) 0 MAXARGS buf
  | .redir cmd _ efile _ _, buf => upd (nulterminate execs cmd buf) efile 0
  | .pipe left right, buf => nulterminate execs right (nulterminate execs left buf)
  | .list left right, buf => nulterminate execs right (nulterminate execs left buf)
  | .back cmd, buf => nulterminate execs cmd buf

/-- Parse the line `b`. The result is the tree with the line as it is afterwards. -/
def parsecmd (b : List Byte) : P (Cmd × Bytes) := do
  let cmd ← parseline b (4 * b.length + 4)
  let _ ← peek b []
  let s ← .get () Parse.s
  if s ≠ b.length then .panic .leftovers
  else
    let execs ← .get () Parse.execs
    pure (cmd, nulterminate execs cmd fun i => b.getD i 0)

end Xv6.User.Sh
