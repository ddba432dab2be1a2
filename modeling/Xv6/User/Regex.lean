import Xv6.User.History
import Mathlib.Computability.Language

/-!
# The regular expressions of `grep.c`

The matcher, and the language of a pattern. A C string is the list of its characters: where the list
ends, the code sees the NUL.
-/

namespace Xv6.User.Grep

open Lib List
open scoped Computability

def caret : Byte := 0x5e

def dollar : Byte := 0x24

def dot : Byte := 0x2e

def asterisk : Byte := 0x2a

/-! ### The matcher -/

mutual

/-- Search for `re` at the beginning of `text`. -/
def matchhere : (re text : List Byte) → Bool
  | [], _ => true
  | c :: re, text =>
    if re.head? = some asterisk then
      matchstar c re.tail text
    else if c = dollar ∧ re = [] then
      text.isEmpty
    else
      match text with
      | [] => false
      | t :: ts => (c == dot || c == t) && matchhere re ts
termination_by re text => (re.length, 0, text.length)
decreasing_by
  all_goals simp only [length_cons, length_tail]
  · exact Prod.Lex.left _ _ (by omega)
  · exact Prod.Lex.left _ _ (by omega)

/-- Search for `c*re` at the beginning of `text`. -/
def matchstar (c : Byte) : (re text : List Byte) → Bool
  | re, [] => matchhere re []
  | re, t :: ts => matchhere re (t :: ts) || (t == c || c == dot) && matchstar c re ts
termination_by re text => (re.length, 1, text.length)
decreasing_by
  · exact Prod.Lex.right _ (Prod.Lex.left _ _ (by decide))
  · exact Prod.Lex.right _ (Prod.Lex.left _ _ (by decide))
  · exact Prod.Lex.right _ (Prod.Lex.right _ (by simp))

end

/-- The loop of `match`: every end of the text is tried, the empty one too. -/
def matchLoop (re : List Byte) : List Byte → Bool
  | [] => matchhere re []
  | t :: ts => matchhere re (t :: ts) || matchLoop re ts

/-- The function `match`. -/
def matchText (re text : List Byte) : Bool :=
  if re.head? = some caret then matchhere re.tail text else matchLoop re text

/-! ### The language of a pattern -/

inductive Item
  | char (c : Byte)
  | any
  | star (i : Item)
  deriving DecidableEq, Repr

/-- The words an item stands for. -/
def Item.language : Item → Language Byte
  | char c => {[c]}
  | any => {w | w.length = 1}
  | star i => i.language∗

/-- The words of a sequence of items. -/
def language (is : List Item) : Language Byte := (is.map Item.language).prod

/-- The item of one character. -/
def atom (c : Byte) : Item := if c = dot then .any else .char c

/-- The items of a pattern. Only a character or a dot can be repeated: an asterisk at the start, or
after another one that repeats, is a character. -/
def items : List Byte → List Item
  | [] => []
  | [c] => [atom c]
  | c :: r :: re => if r = asterisk then .star (atom c) :: items re else atom c :: items (r :: re)

/-- The pattern without the `^` at its start. -/
def uncaret (re : List Byte) : List Byte := if re.head? = some caret then re.tail else re

/-- The pattern without the `$` at its end. A `$` that is the last character is not repeated. -/
def undollar (re : List Byte) : List Byte :=
  if re.getLast? = some dollar then re.dropLast else re

/-- Some part of the text is in the language of the pattern, whose items are given by `read`: a part
at the beginning if the pattern begins with `^`, and at the end if it ends with `$`. -/
def Found (read : List Byte → List Item) (re text : List Byte) : Prop :=
  ∃ before part after, text = before ++ part ++ after ∧
    (re.head? = some caret → before = []) ∧
    ((uncaret re).getLast? = some dollar → after = []) ∧
    part ∈ language (read (undollar (uncaret re)))

/-! ### Languages of one-letter words -/

/-- The character `t` is one that `c` stands for. -/
def Fits (c t : Byte) : Prop := c = dot ∨ c = t

lemma mem_atom {c : Byte} {w : List Byte} :
    w ∈ (atom c).language ↔ ∃ t, w = [t] ∧ Fits c t := by
  unfold atom Fits
  split_ifs with hc
  · change w.length = 1 ↔ _
    simp [length_eq_one_iff, hc]
  · change w = [c] ↔ _
    simp [hc]

lemma mem_kstar_atom {c : Byte} {w : List Byte} :
    w ∈ (atom c).language∗ ↔ ∀ t ∈ w, Fits c t := by
  constructor
  · rintro ⟨L, rfl, hL⟩ t ht
    obtain ⟨y, hy, hty⟩ := mem_flatten.mp ht
    obtain ⟨u, rfl, hu⟩ := mem_atom.mp (hL y hy)
    rw [mem_singleton.mp hty]
    exact hu
  · intro h
    refine ⟨w.map fun t => [t], (flatMap_singleton' w).symm, ?_⟩
    intro y hy
    obtain ⟨t, ht, rfl⟩ := mem_map.mp hy
    exact mem_atom.mpr ⟨t, rfl, h t ht⟩

@[simp] lemma mem_language_nil {w : List Byte} : w ∈ language [] ↔ w = [] := by
  simp [language]

lemma mem_language_cons {i : Item} {is : List Item} {w : List Byte} :
    w ∈ language (i :: is) ↔ ∃ a ∈ i.language, ∃ b ∈ language is, a ++ b = w := by
  simp [language, Language.mem_mul]

/-! ### The matcher finds the language -/

variable {c : Byte} {re text : List Byte}

lemma matchstar_iff (c : Byte) (re text : List Byte) :
    matchstar c re text = true ↔
      ∃ a b, text = a ++ b ∧ (∀ t ∈ a, Fits c t) ∧ matchhere re b = true := by
  induction text with
  | nil =>
    simp only [matchstar]
    constructor
    · intro h
      exact ⟨[], [], rfl, by simp, h⟩
    · rintro ⟨a, b, hab, -, hb⟩
      obtain ⟨-, rfl⟩ := append_eq_nil_iff.mp hab.symm
      exact hb
  | cons t ts ih =>
    have hfits : (t == c || c == dot) = true ↔ Fits c t := by
      rw [Bool.or_eq_true, beq_iff_eq, beq_iff_eq, Fits, or_comm, eq_comm (a := t)]
    rw [matchstar, Bool.or_eq_true, Bool.and_eq_true, hfits, ih]
    constructor
    · rintro (h | ⟨ht, a, b, rfl, ha, hb⟩)
      · exact ⟨[], t :: ts, rfl, by simp, h⟩
      · exact ⟨t :: a, b, rfl, forall_mem_cons.mpr ⟨ht, ha⟩, hb⟩
    · rintro ⟨a, b, hab, ha, hb⟩
      cases a with
      | nil =>
        subst hab
        exact Or.inl hb
      | cons u a =>
        obtain ⟨rfl, rfl⟩ := List.cons.inj hab
        obtain ⟨hu, ha⟩ := forall_mem_cons.mp ha
        exact Or.inr ⟨hu, a, b, rfl, ha, hb⟩

/-- The text begins with a word of the items `is`, and is at its end after it if `stop` holds. -/
def Begins (is : List Item) (stop : Prop) (text : List Byte) : Prop :=
  ∃ part after, text = part ++ after ∧ (stop → after = []) ∧ part ∈ language is

lemma begins_nil {stop : Prop} : Begins [] stop text ↔ (stop → text = []) := by
  constructor
  · rintro ⟨part, after, rfl, hafter, hpart⟩ hstop
    rw [mem_language_nil.mp hpart, hafter hstop]
    rfl
  · intro h
    exact ⟨[], text, rfl, h, mem_language_nil.mpr rfl⟩

lemma begins_atom {is : List Item} {stop : Prop} :
    Begins (atom c :: is) stop text ↔ ∃ t ts, text = t :: ts ∧ Fits c t ∧ Begins is stop ts := by
  constructor
  · rintro ⟨part, after, rfl, hafter, hpart⟩
    obtain ⟨a, ha, b, hb, rfl⟩ := mem_language_cons.mp hpart
    obtain ⟨t, rfl, ht⟩ := mem_atom.mp ha
    exact ⟨t, b ++ after, rfl, ht, b, after, rfl, hafter, hb⟩
  · rintro ⟨t, ts, rfl, ht, part, after, rfl, hafter, hpart⟩
    refine ⟨t :: part, after, rfl, hafter, mem_language_cons.mpr ?_⟩
    exact ⟨[t], mem_atom.mpr ⟨t, rfl, ht⟩, part, hpart, rfl⟩

lemma begins_star {is : List Item} {stop : Prop} :
    Begins (.star (atom c) :: is) stop text ↔
      ∃ a b, text = a ++ b ∧ (∀ t ∈ a, Fits c t) ∧ Begins is stop b := by
  constructor
  · rintro ⟨part, after, rfl, hafter, hpart⟩
    obtain ⟨a, ha, b, hb, rfl⟩ := mem_language_cons.mp hpart
    exact ⟨a, b ++ after, append_assoc .., mem_kstar_atom.mp ha, b, after, rfl, hafter, hb⟩
  · rintro ⟨a, b, rfl, ha, part, after, rfl, hafter, hpart⟩
    refine ⟨a ++ part, after, (append_assoc ..).symm, hafter, mem_language_cons.mpr ?_⟩
    exact ⟨a, mem_kstar_atom.mpr ha, part, hpart, rfl⟩

lemma matchhere_star (c : Byte) (re text : List Byte) :
    matchhere (c :: asterisk :: re) text = matchstar c re text := by
  cases text <;> simp [matchhere]

/-- A character that is neither repeated nor the final `$`. -/
lemma matchhere_atom (hstar : re.head? ≠ some asterisk) (hend : ¬ (c = dollar ∧ re = [])) :
    matchhere (c :: re) text = true ↔
      ∃ t ts, text = t :: ts ∧ Fits c t ∧ matchhere re ts = true := by
  cases text with
  | nil => simp [matchhere, hstar, hend]
  | cons t ts => simp [matchhere, hstar, hend, Fits]

lemma undollar_cons (hre : re ≠ []) : undollar (c :: re) = c :: undollar re := by
  obtain ⟨r, re, rfl⟩ := exists_cons_of_ne_nil hre
  unfold undollar
  rw [getLast?_cons_cons]
  split_ifs <;> rfl

lemma items_atom (hstar : re.head? ≠ some asterisk) : items (c :: re) = atom c :: items re := by
  cases re with
  | nil => rfl
  | cons r re =>
    have hr : r ≠ asterisk := by simpa using hstar
    simp [items, hr]

lemma items_star (c : Byte) (re : List Byte) :
    items (c :: asterisk :: re) = .star (atom c) :: items re := by
  simp [items]

lemma head?_undollar (hre : re.head? ≠ some asterisk) :
    (undollar re).head? ≠ some asterisk := by
  unfold undollar
  split_ifs
  · cases re with
    | nil => simp
    | cons r re =>
      cases re with
      | nil => simp
      | cons r' re => simpa using hre
  · exact hre

/-- `matchhere` looks for a word of the pattern at the start of the text. By the recursion of the
pattern into its items. -/
lemma matchhere_iff (re text : List Byte) :
    matchhere re text = true ↔
      Begins (items (undollar re)) (re.getLast? = some dollar) text := by
  induction re using items.induct generalizing text with
  | case1 => simp [matchhere, undollar, items, begins_nil]
  | case2 c =>
    by_cases hc : c = dollar
    · subst hc
      cases text <;> simp [matchhere, undollar, items, begins_nil]
    · rw [matchhere_atom (by simp) (by simp [hc])]
      simp [undollar, hc, items, begins_atom, begins_nil, matchhere]
  | case3 c re ih =>
    rw [matchhere_star, matchstar_iff]
    by_cases hre : re = []
    · subst hre
      have hne : asterisk ≠ dollar := by decide
      simp [undollar, items, begins_star, begins_nil, matchhere, hne]
    · have hlast : (c :: asterisk :: re).getLast? = re.getLast? := by
        obtain ⟨r, re, rfl⟩ := exists_cons_of_ne_nil hre
        rw [getLast?_cons_cons, getLast?_cons_cons]
      rw [undollar_cons (by simp), undollar_cons hre, items_star, begins_star, hlast]
      simp only [ih]
  | case4 c r re hr ih =>
    have hstar : (r :: re).head? ≠ some asterisk := by simpa using hr
    rw [matchhere_atom hstar (by simp), undollar_cons (by simp),
      items_atom (head?_undollar hstar), begins_atom, getLast?_cons_cons]
    simp only [ih]

lemma matchLoop_iff (re text : List Byte) :
    matchLoop re text = true ↔ ∃ a b, text = a ++ b ∧ matchhere re b = true := by
  induction text with
  | nil => simp [matchLoop]
  | cons t ts ih =>
    rw [matchLoop, Bool.or_eq_true, ih]
    constructor
    · rintro (h | ⟨a, b, rfl, hb⟩)
      · exact ⟨[], t :: ts, rfl, h⟩
      · exact ⟨t :: a, b, rfl, hb⟩
    · rintro ⟨a, b, hab, hb⟩
      cases a with
      | nil =>
        subst hab
        exact Or.inl hb
      | cons u a =>
        obtain ⟨-, rfl⟩ := List.cons.inj hab
        exact Or.inr ⟨a, b, rfl, hb⟩

/-- The matcher is correct. It is a total function: the calls descend in the pattern or, within one
repetition, in the text. -/
theorem matchText_correct (re text : List Byte) :
    matchText re text = true ↔ Found items re text := by
  unfold matchText Found uncaret
  split_ifs with h
  · rw [matchhere_iff]
    constructor
    · rintro ⟨part, after, rfl, hafter, hpart⟩
      exact ⟨[], part, after, rfl, fun _ => rfl, hafter, hpart⟩
    · rintro ⟨before, part, after, rfl, hbefore, hafter, hpart⟩
      rw [hbefore h]
      exact ⟨part, after, rfl, hafter, hpart⟩
  · simp only [matchLoop_iff, matchhere_iff]
    constructor
    · rintro ⟨before, _, rfl, part, after, rfl, hafter, hpart⟩
      exact ⟨before, part, after, (append_assoc ..).symm, fun hc => absurd hc h, hafter, hpart⟩
    · rintro ⟨before, part, after, rfl, -, hafter, hpart⟩
      exact ⟨before, part ++ after, append_assoc .., part, after, rfl, hafter, hpart⟩

/-! ### Repeated repetition -/

/-- The items when every asterisk after an item repeats it, with `i` the item just read. -/
def nestedItemsFrom (i : Item) : List Byte → List Item
  | [] => [i]
  | c :: re =>
    if c = asterisk then nestedItemsFrom (.star i) re else i :: nestedItemsFrom (atom c) re

def nestedItems : List Byte → List Item
  | [] => []
  | c :: re => nestedItemsFrom (atom c) re

/-- The second asterisk of `a**` does not repeat the item before it. -/
theorem matchText_not_nested :
    ¬ ∀ re text, matchText re text = true ↔ Found nestedItems re text := by
  intro h
  have hre : str "a**" = [0x61, asterisk, asterisk] := by decide
  have hno : matchText (str "a**") [] = false := by
    rw [hre]
    simp [matchText, matchLoop, matchhere, matchstar, asterisk, caret, dollar]
  have hyes : Found nestedItems (str "a**") [] := by
    refine ⟨[], [], [], rfl, fun _ => rfl, fun _ => rfl, ?_⟩
    have hitems : nestedItems (undollar (uncaret (str "a**"))) = [.star (.star (.char 0x61))] := by
      decide
    rw [hitems]
    exact mem_language_cons.mpr ⟨[], Language.nil_mem_kstar _, [], mem_language_nil.mpr rfl, rfl⟩
  rw [(h _ _).mpr hyes] at hno
  exact Bool.noConfusion hno

end Xv6.User.Grep
