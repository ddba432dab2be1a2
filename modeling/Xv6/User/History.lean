import Xv6.Lib.Bytes
import Mathlib.Data.Nat.Digits.Defs
import Mathlib.Data.List.GetD
import Mathlib.Tactic.IntervalCases

/-!
# The history of the shell: `sh.c`

The main loop of the shell, line by line, with the array of recorded lines. A C string is the list
of its characters. The counter `histNum` is an unbounded number: before an `int` overflows, lines
can no longer be recalled by their number anyway. -/

namespace Xv6.User

open Lib List

def MAX_HISTORY : Nat := 10

/-- The strings `history[0]`, …, `history[99]`, and `histNum`. -/
structure Shell where
  history : Nat → List Byte := fun _ => []
  histNum : Nat := 0

/-- The characters of a string literal. -/
def str (s : String) : List Byte := s.toList.map fun c => BitVec.ofNat 8 c.toNat

/-! ### The functions on the history -/

/-- A loop of `historyOut`, with `i` more lines to print: the numbers and the lines. -/
def historyOutLoop (history : Nat → List Byte) : Nat → Int → Int → List (Int × List Byte)
  | 0, _, _ => []
  | i + 1, currLoc, lineNum =>
    (lineNum, history currLoc.toNat) :: historyOutLoop history i (currLoc - 1) (lineNum - 1)

/-- Prints out the history. -/
def historyOut (history : Nat → List Byte) (histNum : Int) : List (Int × List Byte) :=
  let tempNum := histNum - 1
  let currLoc := tempNum.tmod MAX_HISTORY
  if histNum ≤ 10 then
    -- for(i = currLoc; i >= 0; i--)
    historyOutLoop history (currLoc + 1).toNat currLoc histNum
  else
    let border := 8 - currLoc
    -- while(currLoc >= 0), then from the end of the array while(border >= 0)
    historyOutLoop history (currLoc + 1).toNat currLoc histNum ++
      historyOutLoop history (border + 1).toNat 9 (histNum - (currLoc + 1))

/-- Adds a line to the history. -/
def historyUpdate (s : Shell) (enteredArgs : List Byte) : Shell :=
  let index := s.histNum % MAX_HISTORY
  { history := upd s.history index enteredArgs, histNum := s.histNum + 1 }

/-- The line that was recorded last. -/
def lastHistory (history : Nat → List Byte) (histNum : Int) : List Byte :=
  let index := (histNum - 1).tmod 10
  history index.toNat

/-- The line for the number typed after `!`. In `historyIndex-1 % 10` the remainder is that of 1. -/
def chooseFromHistory (history : Nat → List Byte) (historyIndex : Int) : List Byte :=
  let index := historyIndex - (1 : Int).tmod 10
  history index.toNat

/-- The digits `'0'` to `'9'`. -/
def digCheck (num : Byte) : Bool := 48 ≤ num && num ≤ 57

def convertDigit (num : Byte) : Nat := if 48 ≤ num ∧ num ≤ 56 then (num - 48).toNat else 9

/-! ### The main loop -/

/-- What the shell does for a line. -/
inductive Event
  | chdir (dir : List Byte)
  | ps
  /-- `runcmd(parsecmd(buf))` in a child. -/
  | run (buf : List Byte)
  /-- Output of `historyOut`. -/
  | listing (lines : List (Int × List Byte))
  /-- Output of `lastHistory`. -/
  | last (line : List Byte)
  /-- Output of `chooseFromHistory`. -/
  | chosen (historyIndex : Nat) (line : List Byte)
  /-- A message of the shell. -/
  | message (text : List Byte)
  deriving DecidableEq

/-- The number that is read after `!`: two digits at most. -/
def bangNumber (buf : List Byte) : Nat :=
  if digCheck (buf.getD 2 0) then
    10 * convertDigit (buf.getD 1 0) + convertDigit (buf.getD 2 0)
  else convertDigit (buf.getD 1 0)

/-- `historyUpdate` of `buf`, and a child that runs it. -/
def record (s : Shell) (out : List Event) (buf : List Byte) : List Event × Shell :=
  (out ++ [.run buf], historyUpdate s buf)

/-- One round of the main loop, for the line that `gets` has read. -/
def command (s : Shell) (line : List Byte) : List Event × Shell :=
  let buf := line.dropLast
  if buf.take 3 = str "cd " then
    -- the last character is chopped a second time
    ([.chdir (buf.dropLast.drop 3)], s)
  else if buf = str "history" then
    if s.histNum < 1 then ([.message (str "No commands in history\n")], s)
    else ([.listing (historyOut s.history s.histNum)], s)
  else if buf = str "!!" then
    if s.histNum < 1 then ([.message (str "No commands in history\n")], s)
    else
      let buf := lastHistory s.history s.histNum
      record s [.last buf] buf
  else if buf = str "ps" then ([.ps], historyUpdate s buf)
  else if buf.getD 0 0 = 33 ∧ buf.getD 1 0 ≠ 33 then
    if digCheck (buf.getD 1 0) then
      let test := bangNumber buf
      if 0 < test ∧ test ≤ s.histNum ∧ (s.histNum : Int) - 10 < test then
        let buf := chooseFromHistory s.history test
        record s [.chosen test buf] buf
      else ([.message (str "This value is not in the history.\n")], s)
    else ([.message (str "Error incorrect format")], s)
  else record s [] buf

/-! ### Recorded lines -/

/-- The shell after the lines were recorded, the first one first. -/
def recorded (lines : List (List Byte)) : Shell := lines.foldl historyUpdate {}

/-- The decimal digits of `k`. -/
def decimal (k : Nat) : List Byte :=
  ((Nat.digits 10 k).map fun d => BitVec.ofNat 8 (48 + d)).reverse

/-- What is typed to recall line `k`. -/
def bang (k : Nat) : List Byte := [33] ++ decimal k ++ [10]

/-- Line `k` of the recorded ones; the first has number 1. -/
def lineNo (lines : List (List Byte)) (k : Nat) : List Byte := lines.getD (k - 1) []

/-- The history recalls the right lines. -/
structure Recalls (lines : List (List Byte)) : Prop where
  history : historyOut (recorded lines).history (recorded lines).histNum =
    (List.range (min 10 lines.length)).map fun j =>
      (((lines.length - j : Nat) : Int), lineNo lines (lines.length - j))
  last : lines ≠ [] →
    .run (lineNo lines lines.length) ∈ (command (recorded lines) (str "!!\n")).1
  choose : ∀ k, max 1 (lines.length - 9) ≤ k → k ≤ lines.length →
    .run (lineNo lines k) ∈ (command (recorded lines) (bang k)).1

section Recorded

variable {lines : List (List Byte)} {j k m : Nat}

lemma recorded_concat (line : List Byte) :
    recorded (lines ++ [line]) = historyUpdate (recorded lines) line := by
  simp [recorded]

@[simp] lemma histNum_recorded : (recorded lines).histNum = lines.length := by
  induction lines using List.reverseRecOn with
  | nil => rfl
  | append_singleton lines line ih =>
    rw [recorded_concat]
    simp [historyUpdate, ih]

/-- The last ten lines are in the array, each at its number modulo ten. -/
lemma history_recorded (hj : j < lines.length) (hlast : lines.length ≤ j + 10) :
    (recorded lines).history (j % 10) = lines.getD j [] := by
  induction lines using List.reverseRecOn with
  | nil => simp at hj
  | append_singleton lines line ih =>
    rw [recorded_concat]
    simp only [length_append, length_singleton] at hj hlast
    simp only [historyUpdate, histNum_recorded, MAX_HISTORY]
    by_cases he : j = lines.length
    · subst he
      simp
    · have hne : j % 10 ≠ lines.length % 10 := by omega
      rw [upd_ne hne, ih (by omega) (by omega), getD_append _ _ _ _ (by omega)]

/-- The rest of the array is never written. -/
lemma history_recorded_of_le (hm : 10 ≤ m) : (recorded lines).history m = [] := by
  induction lines using List.reverseRecOn with
  | nil => rfl
  | append_singleton lines line ih =>
    rw [recorded_concat]
    have hne : m ≠ (recorded lines).histNum % MAX_HISTORY := by
      simp only [MAX_HISTORY]
      omega
    simp only [historyUpdate]
    rw [upd_ne hne, ih]

/-- A line among the last ten, by its number. -/
lemma history_lineNo (hk : 1 ≤ k) (hle : k ≤ lines.length) (hlast : lines.length < k + 10) :
    (recorded lines).history ((k - 1) % 10) = lineNo lines k :=
  history_recorded (by omega) (by omega)

/-! ### `history` and `!!` -/

lemma historyOutLoop_eq (history : Nat → List Byte) (i : Nat) (currLoc lineNum : Int) :
    historyOutLoop history i currLoc lineNum =
      (List.range i).map fun (j : Nat) => (lineNum - j, history (currLoc - j).toNat) := by
  induction i generalizing currLoc lineNum with
  | zero => rfl
  | succ i ih =>
    rw [historyOutLoop, ih, range_succ_eq_map]
    simp only [map_cons, map_map, List.cons.injEq]
    constructor
    · simp
    · refine map_congr_left fun j _ => ?_
      simp only [Function.comp_apply, Nat.succ_eq_add_one, Nat.cast_add, Nat.cast_one]
      rw [show currLoc - 1 - j = currLoc - (j + 1) by omega,
        show lineNum - 1 - j = lineNum - (j + 1) by omega]

lemma tmod_pred (n : Nat) : ((n + 1 : Nat) - 1 : Int).tmod 10 = (n % 10 : Nat) := by
  simp [Int.tmod_eq_emod_of_nonneg]

/-- `historyOut` in one loop: it goes on at the end of the array. -/
lemma historyOut_eq (history : Nat → List Byte) (n : Nat) :
    historyOut history n = (List.range (min 10 n)).map fun (j : Nat) =>
      (((n - j : Nat) : Int), history ((n - j - 1) % 10)) := by
  cases n with
  | zero => rfl
  | succ n =>
    unfold historyOut
    simp only [MAX_HISTORY, Nat.cast_ofNat, tmod_pred, historyOutLoop_eq]
    split_ifs with hle
    · have hn : n % 10 = n := Nat.mod_eq_of_lt (by omega)
      rw [hn, show ((n : Int) + 1).toNat = min 10 (n + 1) by omega]
      refine map_congr_left fun j hj => ?_
      rw [mem_range] at hj
      rw [show ((n : Int) - j).toNat = (n + 1 - j - 1) % 10 by omega]
      simp only [Prod.mk.injEq, and_true]
      omega
    · rw [show ((n % 10 : Nat) + 1 : Int).toNat = n % 10 + 1 by omega,
        show (8 - ((n % 10 : Nat) : Int) + 1).toNat = 9 - n % 10 by omega]
      have hsplit : min 10 (n + 1) = (n % 10 + 1) + (9 - n % 10) := by omega
      rw [hsplit, range_add (m := 9 - n % 10), map_append, map_map]
      congr 1
      · refine map_congr_left fun j hj => ?_
        rw [mem_range] at hj
        rw [show (((n % 10 : Nat) : Int) - j).toNat = (n + 1 - j - 1) % 10 by omega]
        simp only [Prod.mk.injEq, and_true]
        omega
      · refine map_congr_left fun j hj => ?_
        rw [mem_range] at hj
        simp only [Function.comp_apply]
        rw [show ((9 : Int) - j).toNat = (n + 1 - (n % 10 + 1 + j) - 1) % 10 by omega]
        simp only [Prod.mk.injEq, and_true]
        omega

lemma recalls_history : historyOut (recorded lines).history (recorded lines).histNum =
    (List.range (min 10 lines.length)).map fun j =>
      (((lines.length - j : Nat) : Int), lineNo lines (lines.length - j)) := by
  rw [histNum_recorded, historyOut_eq]
  refine map_congr_left fun j hj => ?_
  rw [mem_range] at hj
  rw [history_lineNo (by omega) (by omega) (by omega)]

lemma recalls_last (hne : lines ≠ []) :
    .run (lineNo lines lines.length) ∈ (command (recorded lines) (str "!!\n")).1 := by
  have hpos : 0 < lines.length := length_pos_iff.mpr hne
  obtain ⟨n, hn⟩ : ∃ n, lines.length = n + 1 := ⟨lines.length - 1, by omega⟩
  have hlast : lastHistory (recorded lines).history (lines.length : Nat) =
      lineNo lines lines.length := by
    have hline : (recorded lines).history ((lines.length - 1) % 10) = lineNo lines lines.length :=
      history_lineNo (by omega) le_rfl (by omega)
    simp only [lastHistory]
    rw [hn] at hline ⊢
    rw [tmod_pred]
    exact hline
  have hcmd : command (recorded lines) (str "!!\n") =
      record (recorded lines) [.last (lastHistory (recorded lines).history (lines.length : Nat))]
        (lastHistory (recorded lines).history (lines.length : Nat)) := by
    simp [command, str, hpos.ne']
  rw [hcmd, hlast]
  simp [record]

/-! ### `!` and a number -/

lemma decimal_step (h : 0 < k) :
    decimal k = decimal (k / 10) ++ [BitVec.ofNat 8 (48 + k % 10)] := by
  simp [decimal, Nat.digits_def' (by decide : 1 < 10) h]

lemma decimal_one (h : 0 < k) (hk : k < 10) : decimal k = [BitVec.ofNat 8 (48 + k)] := by
  rw [decimal_step h, Nat.div_eq_of_lt hk, Nat.mod_eq_of_lt hk]
  simp [decimal]

lemma decimal_two (h : 10 ≤ k) (hk : k < 100) :
    decimal k = [BitVec.ofNat 8 (48 + k / 10), BitVec.ofNat 8 (48 + k % 10)] := by
  rw [decimal_step (by omega), decimal_one (by omega) (by omega)]
  rfl

/-- A number of more than two digits is at least ten times the number that its first two make. -/
lemma decimal_more (h : 10 ≤ k) : ∃ d e rest, 1 ≤ d ∧ d < 10 ∧ e < 10 ∧
    decimal k = BitVec.ofNat 8 (48 + d) :: BitVec.ofNat 8 (48 + e) :: rest ∧
    (k < 100 → 10 * d + e = k) ∧ (100 ≤ k → 10 * (10 * d + e) ≤ k) := by
  induction k using Nat.strongRecOn with
  | ind k ih =>
    by_cases hk : k < 100
    · exact ⟨k / 10, k % 10, [], by omega, by omega, by omega, decimal_two h hk, by omega, by omega⟩
    · obtain ⟨d, e, rest, h1, h2, h3, hdec, hlt, hge⟩ := ih (k / 10) (by omega) (by omega)
      refine ⟨d, e, rest ++ [BitVec.ofNat 8 (48 + k % 10)], h1, h2, h3, ?_, by omega, by omega⟩
      rw [decimal_step (by omega), hdec]
      rfl

lemma digCheck_digit {d : Nat} (hd : d < 10) : digCheck (BitVec.ofNat 8 (48 + d)) = true := by
  interval_cases d <;> rfl

lemma convertDigit_digit {d : Nat} (hd : d < 10) : convertDigit (BitVec.ofNat 8 (48 + d)) = d := by
  interval_cases d <;> rfl

/-- The line typed is none of the special ones, and its second character is a digit. -/
lemma command_bang (s : Shell) {d : Nat} {rest : List Byte} (hd : d < 10) :
    command s (33 :: BitVec.ofNat 8 (48 + d) :: rest ++ [10]) =
      let test := bangNumber (33 :: BitVec.ofNat 8 (48 + d) :: rest)
      if 0 < test ∧ test ≤ s.histNum ∧ (s.histNum : Int) - 10 < test then
        record s [.chosen test (chooseFromHistory s.history test)]
          (chooseFromHistory s.history test)
      else ([.message (str "This value is not in the history.\n")], s) := by
  have hne : BitVec.ofNat 8 (48 + d) ≠ 33#8 := by
    interval_cases d <;> decide
  have hbuf : (33 :: BitVec.ofNat 8 (48 + d) :: rest ++ [(10 : Byte)]).dropLast =
      33 :: BitVec.ofNat 8 (48 + d) :: rest := dropLast_concat
  unfold command
  rw [hbuf]
  simp [str, hne, digCheck_digit hd]

lemma bangNumber_one {d : Nat} (hd : d < 10) :
    bangNumber [33, BitVec.ofNat 8 (48 + d)] = d := by
  interval_cases d <;> rfl

lemma bangNumber_two {d e : Nat} {rest : List Byte} (hd : d < 10) (he : e < 10) :
    bangNumber (33 :: BitVec.ofNat 8 (48 + d) :: BitVec.ofNat 8 (48 + e) :: rest) = 10 * d + e := by
  simp [bangNumber, digCheck_digit he, convertDigit_digit hd, convertDigit_digit he]

/-- `!k` for a number of one or two digits in the window runs the string at index `k - 1`. -/
lemma command_bang_small (hk : 1 ≤ k) (hle : k ≤ lines.length) (hlast : lines.length < k + 10)
    (hsmall : k < 100) : (command (recorded lines) (bang k)).1 =
      [.chosen k ((recorded lines).history (k - 1)), .run ((recorded lines).history (k - 1))] := by
  have hchoose : chooseFromHistory (recorded lines).history k =
      (recorded lines).history (k - 1) := by
    simp [chooseFromHistory]
  have hcond : 0 < k ∧ k ≤ (recorded lines).histNum ∧
      ((recorded lines).histNum : Int) - 10 < k := by
    rw [histNum_recorded]
    omega
  rcases Nat.lt_or_ge k 10 with hlt | hge
  · have htyped : bang k = 33 :: BitVec.ofNat 8 (48 + k) :: [] ++ [10] := by
      simp [bang, decimal_one hk hlt]
    rw [htyped, command_bang _ hlt, bangNumber_one hlt]
    simp only [hcond, and_self, if_true, hchoose, record]
    rfl
  · obtain ⟨d, e, rest, -, hd, he, hdec, hval, -⟩ := decimal_more hge
    have htyped : bang k = 33 :: BitVec.ofNat 8 (48 + d) ::
        (BitVec.ofNat 8 (48 + e) :: rest) ++ [10] := by
      simp [bang, hdec]
    rw [htyped, command_bang _ hd, bangNumber_two hd he, hval hsmall]
    simp only [hcond, and_self, if_true, hchoose, record]
    rfl

/-- `!k` for a longer number runs nothing: the two digits that are read are too small. -/
lemma command_bang_large (hle : k ≤ lines.length) (hlarge : 100 ≤ k) :
    (command (recorded lines) (bang k)).1 =
      [.message (str "This value is not in the history.\n")] := by
  obtain ⟨d, e, rest, -, hd, he, hdec, -, hval⟩ := decimal_more (by omega : 10 ≤ k)
  have hten := hval hlarge
  have htyped : bang k = 33 :: BitVec.ofNat 8 (48 + d) ::
      (BitVec.ofNat 8 (48 + e) :: rest) ++ [10] := by
    simp [bang, hdec]
  have hcond : ¬(0 < 10 * d + e ∧ 10 * d + e ≤ (recorded lines).histNum ∧
      ((recorded lines).histNum : Int) - 10 < (10 * d + e : Nat)) := by
    rw [histNum_recorded]
    omega
  rw [htyped, command_bang _ hd, bangNumber_two hd he]
  simp only [hcond, if_false]

lemma recalls_choose_iff (hk : max 1 (lines.length - 9) ≤ k) (hle : k ≤ lines.length) :
    .run (lineNo lines k) ∈ (command (recorded lines) (bang k)).1 ↔
      k ≤ 10 ∨ k < 100 ∧ lineNo lines k = [] := by
  have hpos : 1 ≤ k := (le_max_left _ _).trans hk
  have hwin : lines.length < k + 10 := by
    have := (le_max_right 1 (lines.length - 9)).trans hk
    omega
  rcases Nat.lt_or_ge k 100 with hsmall | hlarge
  · rw [command_bang_small hpos hle hwin hsmall]
    by_cases hten : k ≤ 10
    · have hline := history_lineNo hpos hle hwin
      rw [Nat.mod_eq_of_lt (by omega)] at hline
      simp [hten, hline]
    · rw [history_recorded_of_le (by omega)]
      simp [hten, hsmall]
  · rw [command_bang_large hle hlarge]
    simp only [mem_singleton, reduceCtorEq, false_iff, not_or, not_and]
    omega

end Recorded

/-- The history recalls the right lines exactly if every line in reach has a number up to 10, or a
number of two digits and no characters. -/
theorem history_recalls_iff (lines : List (List Byte)) : Recalls lines ↔
    ∀ k, max 1 (lines.length - 9) ≤ k → k ≤ lines.length →
      k ≤ 10 ∨ k < 100 ∧ lineNo lines k = [] := by
  constructor
  · intro h k hk hle
    exact (recalls_choose_iff hk hle).mp (h.choose k hk hle)
  · intro h
    exact ⟨recalls_history, recalls_last, fun k hk hle =>
      (recalls_choose_iff hk hle).mpr (h k hk hle)⟩

/-- Eleven lines `a`, `b`, …, `k`. -/
def elevenLines : List (List Byte) := (List.range 11).map fun i => [BitVec.ofNat 8 (97 + i)]

/-- After eleven lines `!11` runs an empty line, and not `k`. -/
theorem history_eleventh_line_lost : ¬ Recalls elevenLines ∧
    (command (recorded elevenLines) (bang 11)).1 = [.chosen 11 [], .run []] ∧
    lineNo elevenLines 11 = [107] := by
  have hrun : (command (recorded elevenLines) (bang 11)).1 = [.chosen 11 [], .run []] := by
    rw [command_bang_small (by decide) (by decide) (by decide) (by decide),
      history_recorded_of_le (by decide)]
  refine ⟨fun h => ?_, hrun, by decide⟩
  have hmem := h.choose 11 (by decide) (by decide)
  rw [hrun] at hmem
  exact absurd hmem (by decide)

end Xv6.User
