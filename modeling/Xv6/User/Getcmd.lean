import Xv6.User.History
import Mathlib.Data.List.TakeWhile

/-!
# The lines that the shell reads: `getcmd` in `sh.c`, `gets` in `ulib.c`

The input of the shell is the list of the results of `read(0, &c, 1)`, with `none` where it returned
no character; past its end there are no more characters. -/

namespace Xv6.User

open Lib List

abbrev Input := List (Option Byte)

/-- The loop of `gets`, with room for `n` more characters. -/
def getsLoop : Nat → Input → List Byte × Input
  | 0, input => ([], input)
  | _ + 1, [] => ([], [])
  | _ + 1, none :: input => ([], input)
  | n + 1, some c :: input =>
    if c = 10 ∨ c = 13 then ([c], input)
    else
      let r := getsLoop n input
      (c :: r.1, r.2)

def gets (max : Nat) (input : Input) : List Byte × Input := getsLoop (max - 1) input

/-- The characters that were read, unless the first byte of `buf` is 0. -/
def getcmd (nbuf : Nat) (input : Input) : Option (List Byte) × Input :=
  let r := gets nbuf input
  if r.1.getD 0 0 = 0 then (none, r.2) else (some r.1, r.2)

/-- The string in `buf`: the bytes before the first 0. -/
def cString (line : List Byte) : List Byte := line.takeWhile (· ≠ 0)

/-- A round of the main loop: the shell before it, the characters read, and what was done. -/
structure Round where
  shell : Shell
  line : List Byte
  out : List Event × Shell

section Gets

variable {n : Nat} {input rest : Input} {line : List Byte}

lemma getsLoop_length (n : Nat) (input : Input) :
    (getsLoop n input).2.length + (getsLoop n input).1.length ≤ input.length := by
  induction n generalizing input with
  | zero => simp [getsLoop]
  | succ n ih =>
    cases input with
    | nil => simp [getsLoop]
    | cons c input =>
      cases c with
      | none => simp [getsLoop]
      | some c =>
        have h := ih input
        rw [getsLoop]
        split_ifs
        · simp
        · simp only [length_cons]
          omega

lemma getcmd_some (h : getcmd n input = (some line, rest)) :
    (∃ c tail, line = c :: tail ∧ c ≠ 0) ∧ (gets n input).2 = rest ∧ (gets n input).1 = line := by
  rw [getcmd] at h
  by_cases h0 : (gets n input).1.getD 0 0 = 0
  · rw [if_pos h0] at h
    cases h
  · rw [if_neg h0] at h
    cases h
    refine ⟨?_, rfl, rfl⟩
    cases hl : (gets n input).1 with
    | nil => exact absurd (by rw [hl]; rfl) h0
    | cons c tail =>
      rw [hl] at h0
      exact ⟨c, tail, rfl, h0⟩

lemma getcmd_length (h : getcmd n input = (some line, rest)) : rest.length < input.length := by
  obtain ⟨⟨c, tail, rfl, -⟩, hrest, hline⟩ := getcmd_some h
  have hlen := getsLoop_length (n - 1) input
  rw [← gets, hrest, hline, length_cons] at hlen
  omega

end Gets

/-- The main loop of the shell, round by round. -/
def mainLoop (s : Shell) (input : Input) : List Round :=
  match h : getcmd 100 input with
  | (none, _) => []
  | (some line, rest) =>
    have := getcmd_length h
    ⟨s, line, command s (cString line)⟩ :: mainLoop (command s (cString line)).2 rest
termination_by input.length

section MainLoop

variable {s : Shell} {input rest : Input} {line : List Byte}

lemma mainLoop_none (h : getcmd 100 input = (none, rest)) : mainLoop s input = [] := by
  rw [mainLoop]
  split <;> simp_all

lemma mainLoop_some (h : getcmd 100 input = (some line, rest)) : mainLoop s input =
    ⟨s, line, command s (cString line)⟩ :: mainLoop (command s (cString line)).2 rest := by
  rw [mainLoop]
  split <;> simp_all

end MainLoop

/-! ### The line as typed -/

/-- Whether the line has a newline at its end. `gets` ends a line at a carriage return as well; `cr`
says whether that counts as a newline. -/
def ended (cr : Bool) (line : List Byte) : Bool :=
  line.getLast? = some 10 || cr && line.getLast? = some 13

/-- The characters that were read, without the newline at the end if there is one. -/
def typed (cr : Bool) (line : List Byte) :
    List Byte := if ended cr line then line.dropLast else line

/-- The lines that the shell handles itself, `cd` apart. -/
def Builtin (text : List Byte) : Prop :=
  text = str "history" ∨ text = str "!!" ∨ text = str "ps" ∨ text.getD 0 0 = 33 ∧ text.getD 1 0 ≠ 33

/-- What is in `buf` when `main` looks at it. -/
def Round.buf (r : Round) : List Byte := (cString r.line).dropLast

/-- The shell uses the line as typed. -/
def Round.AsTyped (cr : Bool) (r : Round) : Prop :=
  let text := typed cr r.line
  if text.take 3 = str "cd " then r.out = ([.chdir (text.drop 3)], r.shell)
  else r.buf = text ∧ (¬ Builtin text → r.out = ([.run text], historyUpdate r.shell text))

section AsTyped

variable {s s' : Shell} {line text dir : List Byte} {cr : Bool} {r : Round}

/-- In every round the line begins with a character, and `command` is run on the string in `buf`. -/
lemma mem_mainLoop {input : Input} (h : r ∈ mainLoop s input) :
    (∃ c tail, r.line = c :: tail ∧ c ≠ 0) ∧ r.out = command r.shell (cString r.line) := by
  induction s, input using mainLoop.induct with
  | case1 s input rest heq =>
    rw [mainLoop_none heq] at h
    cases h
  | case2 s input line rest heq _ ih =>
    rw [mainLoop_some heq] at h
    rcases mem_cons.mp h with rfl | h
    · exact ⟨(getcmd_some heq).1, rfl⟩
    · exact ih h

lemma cString_eq_self_iff : cString line = line ↔ 0 ∉ line := by
  rw [cString, takeWhile_eq_self_iff]
  simp only [decide_eq_true_eq]
  exact ⟨fun h h0 => h 0 h0 rfl, fun h c hc h0 => h (h0 ▸ hc)⟩

lemma cString_length_le (line : List Byte) : (cString line).length ≤ line.length :=
  (List.takeWhile_prefix _).length_le

lemma cString_of_length (h : line.length ≤ (cString line).length) : cString line = line :=
  (List.takeWhile_prefix _).eq_of_length (le_antisymm (cString_length_le line) h)

lemma cString_length_pos (hline : ∃ c tail, line = c :: tail ∧ c ≠ 0) :
    0 < (cString line).length := by
  obtain ⟨c, tail, rfl, hc⟩ := hline
  have hkeep : decide (c ≠ 0) = true := decide_eq_true hc
  rw [cString, takeWhile_cons, if_pos hkeep, length_cons]
  exact Nat.succ_pos _

lemma length_typed : (typed cr line).length = line.length - (if ended cr line then 1 else 0) := by
  rw [typed]
  split_ifs <;> simp

/-- `buf` is the line as typed only if the character that was cut off is the newline. -/
lemma buf_eq_typed_iff (hline : ∃ c tail, line = c :: tail ∧ c ≠ 0) :
    (cString line).dropLast = typed cr line ↔ ended cr line = true ∧ 0 ∉ line := by
  have hpos := cString_length_pos hline
  have hle := cString_length_le line
  constructor
  · intro h
    have hlen := congrArg List.length h
    rw [length_typed, length_dropLast] at hlen
    by_cases he : ended cr line = true
    · rw [if_pos he] at hlen
      exact ⟨he, cString_eq_self_iff.mp (cString_of_length (by omega))⟩
    · rw [if_neg he] at hlen
      omega
  · rintro ⟨he, h0⟩
    rw [cString_eq_self_iff.mpr h0, typed, if_pos he]

/-- `chdir` is called only for lines that begin with `cd`, and without the last two characters. -/
lemma command_chdir (h : command s line = ([.chdir dir], s')) :
    line.dropLast.take 3 = str "cd " ∧ dir = line.dropLast.dropLast.drop 3 := by
  by_cases hcd : line.dropLast.take 3 = str "cd "
  · simp only [command, if_pos hcd, Prod.mk.injEq, List.cons.injEq, Event.chdir.injEq] at h
    exact ⟨hcd, h.1.1.symm⟩
  · simp only [command, if_neg hcd] at h
    split_ifs at h <;> simp [record] at h

lemma command_cd (hcd : line.dropLast.take 3 = str "cd ") :
    command s line = ([.chdir (line.dropLast.dropLast.drop 3)], s) := by
  rw [command, if_pos hcd]

lemma command_of_not_builtin (hcd : line.dropLast.take 3 ≠ str "cd ")
    (h : ¬ Builtin line.dropLast) :
    command s line = ([.run line.dropLast], historyUpdate s line.dropLast) := by
  simp only [Builtin, not_or] at h
  obtain ⟨hhistory, hlast, hps, hbang⟩ := h
  simp only [command, if_neg hcd, if_neg hhistory, if_neg hlast, if_neg hps, if_neg hbang, record,
    nil_append]

/-- A line that begins with `cd` loses two characters, so the directory is right only if it is
empty. -/
lemma chdir_as_typed_iff (hline : ∃ c tail, line = c :: tail ∧ c ≠ 0)
    (hcd : (typed cr line).take 3 = str "cd ") :
    command s (cString line) = ([.chdir ((typed cr line).drop 3)], s) ↔
      ended cr line = true ∧ 0 ∉ line ∧ typed cr line = str "cd " := by
  have hle := cString_length_le line
  constructor
  · intro h
    obtain ⟨hbuf, hdir⟩ := command_chdir h
    have hlen := congrArg List.length hdir
    have hthree := congrArg List.length hbuf
    have htext := congrArg List.length hcd
    rw [length_take, show (str "cd ").length = 3 from rfl] at hthree htext
    simp only [length_drop, length_dropLast] at hlen hthree
    rw [length_typed] at hlen htext
    by_cases he : ended cr line = true
    · rw [if_pos he] at hlen htext
      refine ⟨he, cString_eq_self_iff.mp (cString_of_length (by omega)), ?_⟩
      rw [← hcd, take_of_length_le]
      rw [length_typed, if_pos he]
      omega
    · rw [if_neg he] at hlen htext
      omega
  · rintro ⟨he, h0, htext⟩
    have hbuf := (buf_eq_typed_iff hline).mpr ⟨he, h0⟩
    rw [command_cd (by rw [hbuf, hcd]), hbuf, htext]
    rfl

/-- The shell uses a line as typed if the line has a newline at the end and no byte 0, and is not a
`cd` to a directory. -/
theorem line_as_typed_iff (cr : Bool) (s : Shell) (input : Input) : ∀ r ∈ mainLoop s input,
    r.AsTyped cr ↔ ended cr r.line = true ∧ 0 ∉ r.line ∧
      ((typed cr r.line).take 3 = str "cd " → typed cr r.line = str "cd ") := by
  intro r hr
  obtain ⟨hline, hout⟩ := mem_mainLoop hr
  simp only [Round.AsTyped]
  by_cases hcd : (typed cr r.line).take 3 = str "cd "
  · rw [if_pos hcd, hout, chdir_as_typed_iff hline hcd]
    simp only [hcd, forall_const]
  · rw [if_neg hcd, Round.buf, buf_eq_typed_iff hline, and_assoc]
    refine and_congr_right fun he => and_congr_right fun h0 => ?_
    have hbuf := (buf_eq_typed_iff hline).mpr ⟨he, h0⟩
    simp only [hcd, IsEmpty.forall_iff, iff_true]
    intro hplain
    rw [hout, command_of_not_builtin (by rwa [hbuf]) (by rwa [hbuf]), hbuf]

theorem line_as_typed_iff_ls : ∃ r ∈ mainLoop {} ((str "ls\n").map some), r.AsTyped true := by
  have hread : getcmd 100 ((str "ls\n").map some) = (some (str "ls\n"), []) := by decide +kernel
  have hmem : ⟨{}, str "ls\n", command {} (cString (str "ls\n"))⟩ ∈ mainLoop {}
      ((str "ls\n").map some) := by
    rw [mainLoop_some hread]
    exact mem_cons_self
  refine ⟨_, hmem, (line_as_typed_iff true {} _ _ hmem).mpr ⟨rfl, by decide, ?_⟩⟩
  exact fun h => absurd h (by decide)

/-- Of the directory in `cd ab` the last character is lost, and of the last line of a file without a
newline at its end, too. -/
theorem line_not_as_typed :
    (∃ r ∈ mainLoop {} ((str "cd ab\n").map some),
      r.out.1 = [.chdir (str "a")] ∧ ∀ cr, ¬ r.AsTyped cr) ∧
    ∃ r ∈ mainLoop {} ((str "ls").map some), r.out.1 = [.run (str "l")] ∧ ∀ cr, ¬ r.AsTyped cr := by
  constructor
  · have hread : getcmd 100 ((str "cd ab\n").map some) = (some (str "cd ab\n"), []) := by
      decide +kernel
    have hout : (command {} (cString (str "cd ab\n"))).1 = [.chdir (str "a")] := by decide +kernel
    refine ⟨_, by rw [mainLoop_some hread]; exact mem_cons_self, hout, fun cr h => ?_⟩
    have htyped : typed cr (str "cd ab\n") = str "cd ab" := by cases cr <;> rfl
    rw [Round.AsTyped, htyped, if_pos (by decide)] at h
    exact absurd (hout.symm.trans (congrArg Prod.fst h)) (by decide)
  · have hread : getcmd 100 ((str "ls").map some) = (some (str "ls"), []) := by decide +kernel
    have hout : (command {} (cString (str "ls"))).1 = [.run (str "l")] := by decide +kernel
    refine ⟨_, by rw [mainLoop_some hread]; exact mem_cons_self, hout, fun cr h => ?_⟩
    have htyped : typed cr (str "ls") = str "ls" := by cases cr <;> rfl
    rw [Round.AsTyped, htyped, if_neg (by decide)] at h
    exact absurd h.1 (by decide)

end AsTyped

end Xv6.User
