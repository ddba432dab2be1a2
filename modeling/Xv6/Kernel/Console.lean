import Xv6.Lib.Bytes

/-!
# The console

The line editor of `console.c`: `consoleintr` with its history of lines, and `consoleread`. Both run
with `input.lock` held, so one key, and what a reader does between two waits, are steps. What is
shown on the screen is left out.

The array `history` is surrounded by other memory: an access outside it is a fault, after which
nothing is said.
-/

namespace Xv6.Kernel

open Lib

def INPUT_BUF : Nat := 128

def KEY_UP : UInt8 := 0xE2

def KEY_DN : UInt8 := 0xE3

/-- `C(x)`. -/
def ctrl (x : Char) : UInt8 := (x.toNat - '@'.toNat).toUInt8

def newline : UInt8 := 10

/-- `input` and the variables of the history. -/
structure Console where
  buf : Nat → UInt8 := fun _ => 0
  r : BitVec 32 := 0
  w : BitVec 32 := 0
  e : BitVec 32 := 0
  history : Nat → Nat → UInt8 := fun _ _ => 0
  historyIndex : Int := 0
  cmdCount : Int := 0
  upCount : Int := 0
  prevCount : Nat := 0

/-- An access `history[i][j]`. -/
abbrev Access := Int × Int

/-- The place of an index in `input.buf`. -/
def slot (i : BitVec 32) : Nat := i.toNat % INPUT_BUF

/-- The value of an `int`. -/
def int (x : Int) : Int := x.bmod (2 ^ 32)

namespace Console

/-- The access is within the array. -/
def inBounds (i j : Int) : Bool := 0 ≤ i && i < 10 && 0 ≤ j && j < 128

/-- `history[i][j]`. -/
def getHistory (s : Console) (i j : Int) : Except Access UInt8 :=
  if inBounds i j then .ok (s.history i.toNat j.toNat) else .error (i, j)

/-- `history[i][j] = c`. -/
def setHistory (s : Console) (i j : Int) (c : UInt8) : Except Access Console :=
  if inBounds i j then
    .ok { s with history := upd s.history i.toNat (upd (s.history i.toNat) j.toNat c) }
  else .error (i, j)

/-- `input.e-input.r < INPUT_BUF`. -/
def room (s : Console) : Bool := s.e - s.r < 128

/-- `input.buf[input.e++ % INPUT_BUF] = c`. -/
def put (s : Console) (c : UInt8) : Console :=
  { s with buf := upd s.buf (slot s.e) c, e := s.e + 1 }

/-- `input.e--`. -/
def erase (s : Console) : Console := { s with e := s.e - 1 }

/-! ### Recall -/

/-- `strlen(history[i])` from character `j` on; there are `128 - j` more in the row. -/
def strlenLoop (s : Console) (i : Int) (j : Nat) : Nat → Except Access Nat
  | 0 => .error (i, j)
  | k + 1 => do
    let c ← s.getHistory i j
    if c = 0 then pure j else strlenLoop s i (j + 1) k

def strlen (s : Console) (i : Int) : Except Access Nat := s.strlenLoop i 0 128

/-- The characters that the last recall has put in are deleted. -/
def deleteChars : Nat → Console → Console
  | 0, s => s
  | k + 1, s => deleteChars k s.erase

/-- Characters `i`, `i+1`, …, `k` of them, of line `upCount` are put in. -/
def recallLoop (i : Nat) : Nat → Console → Except Access Console
  | 0, s => .ok s
  | k + 1, s => do
    let p ← s.getHistory s.upCount i
    recallLoop (i + 1) k (if p ≠ 0 && s.room then s.put p else s)

/-- Line `upCount` of the history replaces the line that was recalled before. -/
def recallLine (s : Console) : Except Access Console := do
  let len ← (s.deleteChars s.prevCount).strlen s.upCount
  recallLoop 0 len { s.deleteChars s.prevCount with prevCount := len }

/-- `KEY_UP` up to the recall: the new `upCount`, and whether the line is recalled. -/
def up (s : Console) : Int × Bool :=
  if int (s.upCount - 1) < 0 then
    if s.cmdCount > 9 then (9, decide (9 ≠ s.historyIndex)) else (int (s.upCount - 1), false)
  else (int (s.upCount - 1), decide (int (s.upCount - 1) ≠ s.historyIndex))

/-- `KEY_DN` up to the recall. -/
def down (s : Console) : Int × Bool :=
  let n := int (s.upCount + 1)
  let n := if n > 9 then 0 else n
  (n, decide (n ≠ s.historyIndex))

/-- The rest of both keys. -/
def move (s : Console) (go : Int × Bool) : Except Access Console :=
  let s := { s with upCount := go.1 }
  if go.2 then s.recallLine else .ok s

/-! ### Keys -/

/-- Characters `i`, `i+1`, …, `k` of them, of the line are copied to the history. -/
def copyLine (i : Nat) : Nat → Console → Except Access Console
  | 0, s => .ok s
  | k + 1, s => do
    let s ← s.setHistory s.historyIndex i (s.buf (slot (s.w + BitVec.ofNat 32 i)))
    copyLine (i + 1) k s

/-- `(input.e + 128 - input.w) % 128`. -/
def lineLength (s : Console) : Nat := (s.e + 128 - s.w).toNat % 128

/-- The line is put into the history. -/
def remember (s : Console) : Except Access Console := do
  let s' ← copyLine 0 s.lineLength s
  let s' ← s'.setHistory s'.historyIndex (s.lineLength - 1) 0
  pure { s' with
    historyIndex := int (s'.historyIndex + 1)
    upCount := int (s'.historyIndex + 1) }

/-- A line that is not empty is put into the history. -/
def save (s : Console) : Except Access Console := if s.e ≠ s.w then s.remember else .ok s

/-- The end of a line. -/
def commit (s : Console) : Except Access Console := do
  let s ← save { s with cmdCount := int (s.cmdCount + 1), prevCount := 0 }
  pure { s with w := s.e }

/-- `^U`. At most `k` characters are deleted. -/
def killLine : Nat → Console → Console
  | 0, s => s
  | k + 1, s =>
    if s.e ≠ s.w && s.buf (slot (s.e - 1)) ≠ newline then killLine k s.erase else s

/-- The character that is stored. -/
def stored (c : UInt8) : UInt8 := if c = 13 then newline else c

/-- Whether a character that has been put in ends the line. -/
def ends (s : Console) (c : UInt8) : Bool :=
  c = newline || c = ctrl 'D' || s.e = s.r + 128

/-- A character is put in. -/
def enter (s : Console) (c : UInt8) : Except Access Console :=
  if (s.put c).ends c then (s.put c).commit else .ok (s.put c)

/-- One turn of the loop of `consoleintr`. -/
def consoleintr (s : Console) (c : UInt8) : Except Access Console :=
  if c = ctrl 'P' then .ok s
  else if c = ctrl 'U' then .ok (killLine (s.e - s.w).toNat s)
  else if c = ctrl 'H' || c = 0x7f then .ok (if s.e ≠ s.w then s.erase else s)
  else if c = KEY_UP then s.move s.up
  else if c = KEY_DN then s.move s.down
  else if c ≠ 0 && s.room then s.enter (stored c)
  else .ok s

end Console

/-! ### Readers -/

/-- Where a process is in `consoleread`: it has returned, or it waits for a line with `n` of
`target` bytes still to read. -/
inductive Reading
  | returned (result : Int) (dst : List UInt8)
  | waiting (target n : Nat) (dst : List UInt8)

/-- The loop of `consoleread` until it waits or returns. -/
def consolereadLoop (target : Nat) (killed : Bool) :
    Nat → List UInt8 → Console → Console × Reading
  | 0, dst, s => (s, .returned target dst)
  | n + 1, dst, s =>
    if s.r = s.w then
      (s, if killed then .returned (-1) dst else .waiting target (n + 1) dst)
    else if s.buf (slot s.r) = ctrl 'D' then
      -- `^D` is kept for the next call if bytes have been read
      (if n + 1 < target then { s with r := s.r + 1 - 1 } else { s with r := s.r + 1 },
        .returned (target - (n + 1)) dst)
    else if s.buf (slot s.r) = newline then
      ({ s with r := s.r + 1 }, .returned (target - n) (dst ++ [s.buf (slot s.r)]))
    else consolereadLoop target killed n (dst ++ [s.buf (slot s.r)]) { s with r := s.r + 1 }

/-- The console and its readers. -/
structure Tty where
  console : Console := {}
  readers : Nat → Reading := fun _ => .returned 0 []

/-- What happens to a console: a key, a process that calls `consoleread`, one that goes on after
`sleep`. -/
inductive TtyEvent
  | key (c : UInt8)
  | read (p : Nat) (n : Int) (killed : Bool)
  | wake (p : Nat) (killed : Bool)

namespace Tty

/-- Process `p` runs in `consoleread`. -/
def read (t : Tty) (p target n : Nat) (dst : List UInt8) (killed : Bool) : Tty :=
  let res := consolereadLoop target killed n dst t.console
  { console := res.1, readers := upd t.readers p res.2 }

def step (t : Tty) : TtyEvent → Except Access Tty
  | .key c => do
    let s ← t.console.consoleintr c
    pure { t with console := s }
  | .read p n killed =>
    match t.readers p with
    | .returned _ _ => .ok (t.read p n.toNat n.toNat [] killed)
    | .waiting _ _ _ => .ok t
  | .wake p killed =>
    match t.readers p with
    | .returned _ _ => .ok t
    | .waiting target n dst => .ok (t.read p target n dst killed)

def run : List TtyEvent → Tty → Except Access Tty
  | [], t => .ok t
  | ev :: evs, t => do
    let t ← t.step ev
    run evs t

/-- Every key meets a condition in the state in which it is pressed. -/
def Along (P : Console → UInt8 → Prop) : List TtyEvent → Tty → Prop
  | [], _ => True
  | ev :: evs, t =>
    (∀ c, ev = .key c → P t.console c) ∧ ∀ t', t.step ev = .ok t' → Along P evs t'

end Tty

/-! ### The line buffer -/

namespace Console

variable {s s' s'' : Console} {c : UInt8}

lemma bind_ok {α β : Type} {x : Except Access α} {f : α → Except Access β} {b : β}
    (h : x >>= f = .ok b) : ∃ a, x = .ok a ∧ f a = .ok b := by
  cases x with
  | error a => cases h
  | ok a => exact ⟨a, rfl, h⟩

/-- The indices are in circular order. -/
structure Ordered (s : Console) : Prop where
  commit : s.w - s.r ≤ s.e - s.r
  size : s.e - s.r ≤ 128

/-- The bytes that are committed and not yet read are the same. -/
def Keeps (s s' : Console) : Prop :=
  ∀ k, k < s.w - s.r → s'.buf (slot (s.r + k)) = s.buf (slot (s.r + k))

/-- Only the line that is being edited is changed. -/
structure Edits (s s' : Console) : Prop where
  r : s'.r = s.r
  w : s'.w = s.w
  ordered : Ordered s'
  keeps : Keeps s s'

lemma Edits.refl (h : Ordered s) : Edits s s := ⟨rfl, rfl, h, fun _ _ => rfl⟩

lemma Edits.trans (h : Edits s s') (h' : Edits s' s'') : Edits s s'' := by
  refine ⟨h'.r.trans h.r, h'.w.trans h.w, h'.ordered, fun k hk => ?_⟩
  have := h'.keeps k (by rw [h.r, h.w]; exact hk)
  rw [h.r] at this
  exact this.trans (h.keeps k hk)

/-- A character is put in behind the bytes that are not yet read. -/
lemma Ordered.put (h : Ordered s) (hroom : s.room = true) (c : UInt8) : Edits s (s.put c) := by
  have hlt : s.e - s.r < 128 := of_decide_eq_true hroom
  have h1 := h.commit
  refine ⟨rfl, rfl, ⟨?_, ?_⟩, fun k hk => upd_ne ?_⟩
  · change s.w - s.r ≤ s.e + 1 - s.r
    bv_omega
  · change s.e + 1 - s.r ≤ 128
    bv_omega
  · simp only [slot, INPUT_BUF]
    bv_omega

lemma Ordered.erase (h : Ordered s) (hne : s.e ≠ s.w) : Edits s s.erase := by
  have h1 := h.commit
  have h2 := h.size
  refine ⟨rfl, rfl, ⟨?_, ?_⟩, fun _ _ => rfl⟩
  · change s.w - s.r ≤ s.e - 1 - s.r
    bv_omega
  · change s.e - 1 - s.r ≤ 128
    bv_omega

lemma Ordered.killLine (k : Nat) (h : Ordered s) : Edits s (s.killLine k) := by
  induction k generalizing s with
  | zero => exact .refl h
  | succ k ih =>
    unfold Console.killLine
    split
    next hgo =>
      have hne : s.e ≠ s.w := of_decide_eq_true (Bool.and_eq_true_iff.mp hgo).1
      exact (h.erase hne).trans (ih (h.erase hne).ordered)
    next => exact .refl h

/-- Characters of the line are deleted. -/
lemma Ordered.deleteChars (k : Nat) (h : Ordered s) (hk : k ≤ (s.e - s.w).toNat) :
    Edits s (s.deleteChars k) := by
  induction k generalizing s with
  | zero => exact .refl h
  | succ k ih =>
    have hne : s.e ≠ s.w := by bv_omega
    refine (h.erase hne).trans (ih (h.erase hne).ordered ?_)
    change k ≤ (s.e - 1 - s.w).toNat
    bv_omega

lemma recallLoop_edits {i k : Nat} (h : Ordered s) (hs : recallLoop i k s = .ok s') :
    Edits s s' := by
  induction k generalizing i s with
  | zero =>
    obtain rfl := Except.ok.inj hs
    exact .refl h
  | succ k ih =>
    obtain ⟨p, -, hs⟩ := bind_ok hs
    split at hs
    next hp =>
      have hput := h.put (Bool.and_eq_true_iff.mp hp).2 p
      exact hput.trans (ih hput.ordered hs)
    next => exact ih h hs

/-- The line is deleted first, so what is put in replaces it. -/
lemma recall_edits (h : Ordered s) (hown : s.prevCount ≤ (s.e - s.w).toNat)
    (hs : s.recallLine = .ok s') : Edits s s' := by
  have hdel := h.deleteChars s.prevCount hown
  obtain ⟨len, -, hs⟩ := bind_ok hs
  have hloop := recallLoop_edits (s := { s.deleteChars s.prevCount with prevCount := len })
    ⟨hdel.ordered.commit, hdel.ordered.size⟩ hs
  exact hdel.trans ⟨hloop.r, hloop.w, hloop.ordered, hloop.keeps⟩

/-- When a line is recalled, the characters that are deleted belong to the line. -/
def RecallsOwn (s : Console) (c : UInt8) : Prop :=
  (c = KEY_UP → s.up.2 = true → s.prevCount ≤ (s.e - s.w).toNat) ∧
  (c = KEY_DN → s.down.2 = true → s.prevCount ≤ (s.e - s.w).toNat)

lemma move_edits {go : Int × Bool} (h : Ordered s)
    (hown : go.2 = true → s.prevCount ≤ (s.e - s.w).toNat) (hs : s.move go = .ok s') :
    Edits s s' := by
  unfold move at hs
  split at hs
  next hgo =>
    have := recall_edits (s := { s with upCount := go.1 }) ⟨h.commit, h.size⟩ (hown hgo) hs
    exact ⟨this.r, this.w, this.ordered, this.keeps⟩
  next =>
    obtain rfl := Except.ok.inj hs
    exact ⟨rfl, rfl, ⟨h.commit, h.size⟩, fun _ _ => rfl⟩

/-- The history is not the buffer. -/
lemma setHistory_ok {i j : Int} (hs : s.setHistory i j c = .ok s') :
    inBounds i j = true ∧
      s' = { s with history := upd s.history i.toNat (upd (s.history i.toNat) j.toNat c) } := by
  unfold setHistory at hs
  split at hs
  next h => exact ⟨h, (Except.ok.inj hs).symm⟩
  next => cases hs

lemma copyLine_ok {i k : Nat} (hs : copyLine i k s = .ok s') :
    ∃ h, s' = { s with history := h } ∧ ((∀ a, s.history a 127 = 0) → i + k ≤ 127 →
      ∀ a, h a 127 = 0) := by
  induction k generalizing i s with
  | zero =>
    obtain rfl := Except.ok.inj hs
    exact ⟨_, rfl, fun h _ => h⟩
  | succ k ih =>
    obtain ⟨s1, h₁, hs⟩ := bind_ok hs
    obtain ⟨-, rfl⟩ := setHistory_ok h₁
    obtain ⟨h, rfl, hlast⟩ := ih hs
    refine ⟨h, rfl, fun h0 hk => hlast (fun a => ?_) (by omega)⟩
    change upd s.history _ (upd _ _ _) a 127 = 0
    by_cases ha : a = s.historyIndex.toNat
    · rw [ha, upd_same, upd_ne (by simp; omega)]
      exact h0 _
    · rw [upd_ne ha]
      exact h0 a

lemma save_ok (hs : s.save = .ok s') :
    s'.buf = s.buf ∧ s'.r = s.r ∧ s'.e = s.e := by
  unfold save at hs
  split at hs
  next =>
    obtain ⟨s1, h₁, hs⟩ := bind_ok hs
    obtain ⟨_, rfl, -⟩ := copyLine_ok h₁
    obtain ⟨s2, h₂, hs⟩ := bind_ok hs
    obtain ⟨-, rfl⟩ := setHistory_ok h₂
    obtain rfl := Except.ok.inj hs
    exact ⟨rfl, rfl, rfl⟩
  next =>
    obtain rfl := Except.ok.inj hs
    exact ⟨rfl, rfl, rfl⟩

/-- A character is put in, and perhaps the line is committed. -/
lemma enter_ordered (h : Ordered s) (hroom : s.room = true) (hs : s.enter c = .ok s') :
    Ordered s' ∧ Keeps s s' := by
  have hput := h.put hroom c
  unfold enter at hs
  split at hs
  next =>
    obtain ⟨s1, h₁, hs⟩ := bind_ok hs
    obtain rfl := Except.ok.inj hs
    obtain ⟨hbuf, hr, he⟩ := save_ok h₁
    refine ⟨⟨BitVec.le_refl (s1.e - s1.r), ?_⟩, fun k hk => ?_⟩
    · change s1.e - s1.r ≤ 128
      rw [hr, he]
      exact hput.ordered.size
    · change s1.buf _ = _
      rw [hbuf]
      exact hput.keeps k hk
  next =>
    obtain rfl := Except.ok.inj hs
    exact ⟨hput.ordered, hput.keeps⟩

/-- What a key does to the buffer. -/
lemma consoleintr_ordered (h : Ordered s) (hown : RecallsOwn s c)
    (hs : s.consoleintr c = .ok s') : Ordered s' ∧ Keeps s s' := by
  have hedits : ∀ {s'}, Edits s s' → Ordered s' ∧ Keeps s s' := fun he => ⟨he.ordered, he.keeps⟩
  unfold consoleintr at hs
  split at hs
  next =>
    obtain rfl := Except.ok.inj hs
    exact hedits (.refl h)
  split at hs
  next =>
    obtain rfl := Except.ok.inj hs
    exact hedits (h.killLine _)
  split at hs
  next =>
    obtain rfl := Except.ok.inj hs
    split
    next hne => exact hedits (h.erase hne)
    next => exact hedits (.refl h)
  split at hs
  next hup => exact hedits (move_edits h (hown.1 hup) hs)
  split at hs
  next hdn => exact hedits (move_edits h (hown.2 hdn) hs)
  split at hs
  next hc => exact enter_ordered h (Bool.and_eq_true_iff.mp hc).2 hs
  next =>
    obtain rfl := Except.ok.inj hs
    exact hedits (.refl h)

/-- A reader takes bytes that are committed only. -/
lemma consolereadLoop_ordered {target n : Nat} {killed : Bool} {dst : List UInt8}
    (h : Ordered s) : Ordered (consolereadLoop target killed n dst s).1 := by
  induction n generalizing dst s with
  | zero => exact h
  | succ n ih =>
    unfold consolereadLoop
    split
    next => exact h
    next hne =>
      have h1 := h.commit
      have h2 := h.size
      have hnext : Ordered { s with r := s.r + 1 } := by
        constructor
        · change s.w - (s.r + 1) ≤ s.e - (s.r + 1)
          bv_omega
        · change s.e - (s.r + 1) ≤ 128
          bv_omega
      split
      next =>
        split
        next =>
          constructor
          · change s.w - (s.r + 1 - 1) ≤ s.e - (s.r + 1 - 1)
            bv_omega
          · change s.e - (s.r + 1 - 1) ≤ 128
            bv_omega
        next => exact hnext
      next =>
        split
        next => exact hnext
        next => exact ih hnext

/-! ### The history -/

/-- The variables of the history. The last byte of a row is never written. -/
structure HistoryOk (s : Console) : Prop where
  index : 0 ≤ s.historyIndex ∧ s.historyIndex ≤ 10
  up : -2 ^ 31 ≤ s.upCount ∧ s.upCount ≤ 10
  last : ∀ i, s.history i 127 = 0

/-- The history is the same. -/
structure Same (s s' : Console) : Prop where
  history : s'.history = s.history
  index : s'.historyIndex = s.historyIndex
  up : s'.upCount = s.upCount

lemma Same.trans (h : Same s s') (h' : Same s' s'') : Same s s'' :=
  ⟨h'.history.trans h.history, h'.index.trans h.index, h'.up.trans h.up⟩

lemma HistoryOk.same (h : HistoryOk s) (hs : Same s s') : HistoryOk s' :=
  ⟨by rw [hs.index]; exact h.index, by rw [hs.up]; exact h.up, by rw [hs.history]; exact h.last⟩

lemma deleteChars_same (k : Nat) : Same s (s.deleteChars k) := by
  induction k generalizing s with
  | zero => exact ⟨rfl, rfl, rfl⟩
  | succ k ih => exact (⟨rfl, rfl, rfl⟩ : Same s s.erase).trans ih

lemma killLine_same (k : Nat) : Same s (s.killLine k) := by
  induction k generalizing s with
  | zero => exact ⟨rfl, rfl, rfl⟩
  | succ k ih =>
    unfold killLine
    split
    · exact (⟨rfl, rfl, rfl⟩ : Same s s.erase).trans ih
    · exact ⟨rfl, rfl, rfl⟩

lemma inBounds_iff {i j : Int} : inBounds i j = true ↔ (0 ≤ i ∧ i < 10) ∧ 0 ≤ j ∧ j < 128 := by
  simp [inBounds, and_assoc]

/-- A row ends with a zero at the latest. -/
lemma strlenLoop_ok {i : Int} (hlast : ∀ a, s.history a 127 = 0) (hi : 0 ≤ i ∧ i < 10) (k : Nat) :
    ∀ j, j + k + 1 = 128 → ∃ len, s.strlenLoop i j (k + 1) = .ok len ∧ len < 128 := by
  have hget : ∀ j : Nat, j < 128 → s.getHistory i j = .ok (s.history i.toNat j) := fun j hj => by
    unfold getHistory
    rw [if_pos (inBounds_iff.mpr ⟨hi, by omega, by omega⟩)]
    rfl
  induction k with
  | zero =>
    intro j hj
    obtain rfl : j = 127 := by omega
    refine ⟨127, ?_, by decide⟩
    unfold strlenLoop
    rw [hget 127 (by decide), hlast]
    rfl
  | succ k ih =>
    intro j hj
    unfold strlenLoop
    rw [hget j (by omega)]
    by_cases hc : s.history i.toNat j = 0
    · exact ⟨j, by rw [hc]; rfl, by omega⟩
    · obtain ⟨len, h, hlen⟩ := ih (j + 1) (by omega)
      exact ⟨len, (if_neg hc).trans h, hlen⟩

lemma recallLoop_same {i k : Nat} (hs : recallLoop i k s = .ok s') : Same s s' := by
  induction k generalizing i s with
  | zero =>
    obtain rfl := Except.ok.inj hs
    exact ⟨rfl, rfl, rfl⟩
  | succ k ih =>
    obtain ⟨p, -, hs⟩ := bind_ok hs
    split at hs
    · exact (⟨rfl, rfl, rfl⟩ : Same s (s.put p)).trans (ih hs)
    · exact ih hs

lemma recallLoop_ok {i k : Nat} (hup : 0 ≤ s.upCount ∧ s.upCount < 10) (hk : i + k ≤ 128) :
    ∃ s', recallLoop i k s = .ok s' := by
  induction k generalizing i s with
  | zero => exact ⟨s, rfl⟩
  | succ k ih =>
    unfold recallLoop getHistory
    rw [if_pos (inBounds_iff.mpr ⟨hup, by omega, by omega⟩)]
    refine ih ?_ (by omega)
    split <;> exact hup

/-- A recall stays within the array if its line does. -/
lemma recall_ok_iff (hlast : ∀ a, s.history a 127 = 0) :
    (∃ s', s.recallLine = .ok s') ↔ 0 ≤ s.upCount ∧ s.upCount < 10 := by
  have hdel := deleteChars_same (s := s) s.prevCount
  constructor
  · rintro ⟨s', hs⟩
    obtain ⟨len, hlen, -⟩ := bind_ok hs
    obtain ⟨c, hc, -⟩ := bind_ok hlen
    unfold getHistory at hc
    split at hc
    next h => exact (inBounds_iff.mp h).1
    next => cases hc
  · intro hup
    obtain ⟨len, hlen, hlt⟩ := strlenLoop_ok (s := s.deleteChars s.prevCount)
      (by rw [hdel.history]; exact hlast) hup 127 0 rfl
    unfold recallLine
    rw [show (s.deleteChars s.prevCount).strlen s.upCount = .ok len from hlen]
    exact recallLoop_ok (s := { s.deleteChars s.prevCount with prevCount := len })
      (hdel.up ▸ hup) (by omega)

lemma recall_same (hs : s.recallLine = .ok s') : Same s s' := by
  obtain ⟨len, -, hs⟩ := bind_ok hs
  have hloop := recallLoop_same hs
  exact (deleteChars_same _).trans ⟨hloop.history, hloop.index, hloop.up⟩

lemma move_ok_iff {go : Int × Bool} (hlast : ∀ a, s.history a 127 = 0) :
    (∃ s', s.move go = .ok s') ↔ (go.2 = true → 0 ≤ go.1 ∧ go.1 < 10) := by
  unfold move
  cases go.2 with
  | true => simpa using recall_ok_iff (s := { s with upCount := go.1 }) hlast
  | false => simp

lemma move_historyOk {go : Int × Bool} (h : HistoryOk s) (hgo : -2 ^ 31 ≤ go.1 ∧ go.1 ≤ 10)
    (hs : s.move go = .ok s') : HistoryOk s' := by
  have h' : HistoryOk { s with upCount := go.1 } := ⟨h.index, hgo, h.last⟩
  unfold move at hs
  split at hs
  · exact h'.same (recall_same hs)
  · obtain rfl := Except.ok.inj hs
    exact h'

lemma int_eq {x : Int} (h : -2 ^ 31 ≤ x) (h' : x < 2 ^ 31) : int x = x :=
  Int.bmod_eq_of_le (by omega) (by omega)

/-- `KEY_UP` leaves the array only when `upCount` wraps around. -/
lemma up_inBounds_iff (h : HistoryOk s) :
    (s.up.2 = true → 0 ≤ s.up.1 ∧ s.up.1 < 10) ↔ s.upCount ≠ -2 ^ 31 := by
  obtain ⟨h1, h2⟩ := h.up
  have h3 := h.index
  by_cases hmin : s.upCount = -2 ^ 31
  · have hmax : int (s.upCount - 1) = 2 ^ 31 - 1 := by
      rw [hmin]
      rfl
    have hne : (2 ^ 31 - 1 : Int) ≠ s.historyIndex := by omega
    have hup : s.up = (2 ^ 31 - 1, true) := by
      unfold up
      rw [hmax, if_neg (by decide), decide_eq_true hne]
    simp [hup, hmin]
  · refine iff_of_true (fun hgo => ?_) hmin
    have he : int (s.upCount - 1) = s.upCount - 1 := int_eq (by omega) (by omega)
    unfold up at hgo ⊢
    rw [he] at hgo ⊢
    split at hgo
    next hneg =>
      split at hgo
      next h9 => simp [hneg, h9]
      next => cases hgo
    next hneg =>
      rw [if_neg hneg]
      simp only
      omega

lemma up_bounds (h : HistoryOk s) (hmin : s.upCount ≠ -2 ^ 31) :
    -2 ^ 31 ≤ s.up.1 ∧ s.up.1 ≤ 10 := by
  obtain ⟨h1, h2⟩ := h.up
  have he : int (s.upCount - 1) = s.upCount - 1 := int_eq (by omega) (by omega)
  have hcases : s.up.1 = 9 ∨ s.up.1 = s.upCount - 1 := by
    unfold up
    rw [he]
    split
    · split
      · exact .inl rfl
      · exact .inr rfl
    · exact .inr rfl
  omega

lemma down_inBounds_iff (h : HistoryOk s) :
    (s.down.2 = true → 0 ≤ s.down.1 ∧ s.down.1 < 10) ↔ -1 ≤ s.upCount := by
  obtain ⟨h1, h2⟩ := h.up
  have h3 := h.index
  have he : int (s.upCount + 1) = s.upCount + 1 := int_eq (by omega) (by omega)
  unfold down
  rw [he]
  simp only [decide_eq_true_eq]
  split <;> omega

lemma down_bounds (h : HistoryOk s) : -2 ^ 31 ≤ s.down.1 ∧ s.down.1 ≤ 10 := by
  obtain ⟨h1, h2⟩ := h.up
  have he : int (s.upCount + 1) = s.upCount + 1 := int_eq (by omega) (by omega)
  unfold down
  rw [he]
  simp only
  split <;> omega

lemma copyLine_exists {i k : Nat} (hk : i + k ≤ 128)
    (hindex : 0 ≤ s.historyIndex ∧ s.historyIndex < 10) : ∃ s', copyLine i k s = .ok s' := by
  induction k generalizing i s with
  | zero => exact ⟨s, rfl⟩
  | succ k ih =>
    unfold copyLine setHistory
    rw [if_pos (inBounds_iff.mpr ⟨hindex, by omega, by omega⟩)]
    exact ih (by omega) hindex

lemma lineLength_lt : s.lineLength < 128 := Nat.mod_lt _ (by decide)

/-- A line goes into the history if there is a row for it and its length is not a multiple of
`128`. -/
lemma remember_ok_iff : (∃ s', s.remember = .ok s') ↔
    (0 ≤ s.historyIndex ∧ s.historyIndex < 10) ∧ s.lineLength ≠ 0 := by
  have hlen := lineLength_lt (s := s)
  constructor
  · rintro ⟨s', hs⟩
    obtain ⟨s1, h₁, hs⟩ := bind_ok hs
    obtain ⟨s2, h₂, -⟩ := bind_ok hs
    obtain ⟨_, rfl, -⟩ := copyLine_ok h₁
    obtain ⟨hi, hj, -⟩ := inBounds_iff.mp (setHistory_ok h₂).1
    exact ⟨hi, by omega⟩
  · rintro ⟨hi, hne⟩
    obtain ⟨s1, h₁⟩ := copyLine_exists (i := 0) (k := s.lineLength) (by omega) hi
    unfold remember
    rw [h₁]
    obtain ⟨_, rfl, -⟩ := copyLine_ok h₁
    change ∃ s', (setHistory _ s.historyIndex _ _ >>= _) = .ok s'
    unfold setHistory
    rw [if_pos (inBounds_iff.mpr ⟨hi, by omega, by omega⟩)]
    exact ⟨_, rfl⟩

lemma remember_historyOk (h : HistoryOk s) (hs : s.remember = .ok s') : HistoryOk s' := by
  have hlen := lineLength_lt (s := s)
  obtain ⟨hi, -⟩ := remember_ok_iff.mp ⟨s', hs⟩
  obtain ⟨s1, h₁, hs⟩ := bind_ok hs
  obtain ⟨hist, rfl, hlast⟩ := copyLine_ok h₁
  obtain ⟨s2, h₂, hs⟩ := bind_ok hs
  obtain ⟨-, rfl⟩ := setHistory_ok h₂
  obtain rfl := Except.ok.inj hs
  have he : int (s.historyIndex + 1) = s.historyIndex + 1 := int_eq (by omega) (by omega)
  refine ⟨?_, ?_, fun a => ?_⟩
  · change 0 ≤ int (s.historyIndex + 1) ∧ int (s.historyIndex + 1) ≤ 10
    omega
  · change -2 ^ 31 ≤ int (s.historyIndex + 1) ∧ int (s.historyIndex + 1) ≤ 10
    omega
  · have h0 := hlast h.last (by omega)
    change upd hist _ (upd _ _ 0) a 127 = 0
    by_cases ha : a = s.historyIndex.toNat
    · rw [ha, upd_same]
      unfold upd
      split
      · rfl
      · exact h0 _
    · rw [upd_ne ha]
      exact h0 a

/-- The characters that are put into the line. -/
def isText (c : UInt8) : Bool :=
  !(c = ctrl 'P' || c = ctrl 'U' || c = ctrl 'H' || c = 0x7f || c = KEY_UP || c = KEY_DN || c = 0)

/-- The key ends a line that is not empty. -/
def Commits (s : Console) (c : UInt8) : Prop :=
  isText c = true ∧ s.room = true ∧ (s.put (stored c)).ends (stored c) = true ∧
    (s.put (stored c)).e ≠ s.w

/-- When a line ends there is a row for it and its length is not a multiple of `128`; `KEY_DN` is
not pressed when `KEY_UP` has gone two lines or more before the first one; and `upCount` does not
wrap around. -/
structure KeyInBounds (s : Console) (c : UInt8) : Prop where
  line : s.Commits c → s.historyIndex < 10 ∧ (s.put (stored c)).lineLength ≠ 0
  down : c = KEY_DN → -1 ≤ s.upCount
  up : c = KEY_UP → s.upCount ≠ -2 ^ 31

lemma KeyInBounds.of_not_text (h : isText c = false) (hup : c ≠ KEY_UP) (hdn : c ≠ KEY_DN) :
    KeyInBounds s c :=
  ⟨fun hc => absurd hc.1 (by simp [h]), fun e => absurd e hdn, fun e => absurd e hup⟩

lemma enter_ok_iff (h : HistoryOk s) :
    (∃ s', s.enter c = .ok s') ↔ ((s.put c).ends c = true → (s.put c).e ≠ s.w →
      s.historyIndex < 10 ∧ (s.put c).lineLength ≠ 0) := by
  obtain ⟨s1, hs1⟩ : ∃ s1 : Console,
    s1 = { s.put c with cmdCount := int (s.cmdCount + 1), prevCount := 0 } := ⟨_, rfl⟩
  have hcommit : (∃ s', (s.put c).commit = .ok s') ↔ ∃ s', s1.save = .ok s' := by
    rw [hs1]
    constructor
    · rintro ⟨s', hs⟩
      obtain ⟨s2, h₂, -⟩ := bind_ok hs
      exact ⟨s2, h₂⟩
    · rintro ⟨s', hs⟩
      unfold commit
      exact ⟨_, congrArg (· >>= _) hs⟩
  have hsave : (∃ s', s1.save = .ok s') ↔
      ((s.put c).e ≠ s.w → s.historyIndex < 10 ∧ (s.put c).lineLength ≠ 0) := by
    unfold save
    split
    next hne =>
      rw [remember_ok_iff, hs1]
      have hne' : (s.put c).e ≠ s.w := by
        rw [hs1] at hne
        exact hne
      exact ⟨fun h _ => ⟨h.1.2, h.2⟩, fun h' => ⟨⟨h.index.1, (h' hne').1⟩, (h' hne').2⟩⟩
    next he =>
      rw [hs1] at he
      exact iff_of_true ⟨_, rfl⟩ fun hne => absurd hne he
  unfold enter
  split
  next hends =>
    rw [hcommit, hsave]
    exact ⟨fun h _ => h, fun h => h hends⟩
  next hends => exact iff_of_true ⟨_, rfl⟩ fun h => absurd h hends

/-- A key makes accesses within the array, and only those, if and only if the condition holds. -/
lemma consoleintr_ok_iff (h : HistoryOk s) :
    (∃ s', s.consoleintr c = .ok s') ↔ s.KeyInBounds c := by
  unfold consoleintr
  split
  next hc => exact iff_of_true ⟨_, rfl⟩ (by
    subst hc; exact .of_not_text (by decide) (by decide) (by decide))
  split
  next hc => exact iff_of_true ⟨_, rfl⟩ (by
    subst hc; exact .of_not_text (by decide) (by decide) (by decide))
  split
  next hc =>
    refine iff_of_true ⟨_, rfl⟩ ?_
    rcases Bool.or_eq_true_iff.mp hc with hc | hc <;> obtain rfl := of_decide_eq_true hc <;>
      exact .of_not_text (by decide) (by decide) (by decide)
  split
  next hc =>
    rw [move_ok_iff h.last, up_inBounds_iff h]
    subst hc
    exact ⟨fun hup => ⟨fun hc => absurd hc.1 (by decide), fun e => absurd e (by decide),
      fun _ => hup⟩, fun hk => hk.up rfl⟩
  split
  next hc =>
    rw [move_ok_iff h.last, down_inBounds_iff h]
    subst hc
    exact ⟨fun hdn => ⟨fun hc => absurd hc.1 (by decide), fun _ => hdn,
      fun e => absurd e (by decide)⟩, fun hk => hk.down rfl⟩
  next hP hU hH hup hdn =>
  split
  next hc =>
    obtain ⟨h0, hroom⟩ := Bool.and_eq_true_iff.mp hc
    have htext : isText c = true := by
      simp only [Bool.or_eq_true, decide_eq_true_eq, not_or] at hH
      simp [isText, hP, hU, hH.1, hH.2, hup, hdn, of_decide_eq_true h0]
    rw [enter_ok_iff h]
    exact ⟨fun hl => ⟨fun hcm => hl hcm.2.2.1 hcm.2.2.2, fun e => absurd e hdn,
      fun e => absurd e hup⟩, fun hk h1 h2 => hk.line ⟨htext, hroom, h1, h2⟩⟩
  next hc =>
    refine iff_of_true ⟨_, rfl⟩ ⟨fun hcm => absurd ?_ hc, fun e => absurd e hdn,
      fun e => absurd e hup⟩
    have htext := hcm.1
    simp only [isText, Bool.not_eq_true', Bool.or_eq_false_iff] at htext
    rw [Bool.and_eq_true_iff]
    exact ⟨by simpa using htext.2, hcm.2.1⟩

lemma save_historyOk (h : HistoryOk s) (hs : s.save = .ok s') : HistoryOk s' := by
  unfold save at hs
  split at hs
  next => exact remember_historyOk h hs
  next =>
    obtain rfl := Except.ok.inj hs
    exact h

lemma enter_historyOk (h : HistoryOk s) (hs : s.enter c = .ok s') : HistoryOk s' := by
  unfold enter at hs
  split at hs
  next =>
    obtain ⟨s1, h₁, hs⟩ := bind_ok hs
    obtain rfl := Except.ok.inj hs
    have hput : HistoryOk { s.put c with cmdCount := int (s.cmdCount + 1), prevCount := 0 } :=
      h.same ⟨rfl, rfl, rfl⟩
    exact (save_historyOk hput h₁).same ⟨rfl, rfl, rfl⟩
  next =>
    obtain rfl := Except.ok.inj hs
    exact h.same ⟨rfl, rfl, rfl⟩

lemma consoleintr_historyOk (h : HistoryOk s) (hs : s.consoleintr c = .ok s') : HistoryOk s' := by
  have hkey := (consoleintr_ok_iff h).mp ⟨s', hs⟩
  unfold consoleintr at hs
  split at hs
  next =>
    obtain rfl := Except.ok.inj hs
    exact h
  split at hs
  next =>
    obtain rfl := Except.ok.inj hs
    exact h.same (killLine_same _)
  split at hs
  next =>
    obtain rfl := Except.ok.inj hs
    split <;> exact h.same ⟨rfl, rfl, rfl⟩
  split at hs
  next hup => exact move_historyOk h (up_bounds h (hkey.up hup)) hs
  split at hs
  next => exact move_historyOk h (down_bounds h) hs
  split at hs
  next => exact enter_historyOk h hs
  next =>
    obtain rfl := Except.ok.inj hs
    exact h

lemma consolereadLoop_same {target n : Nat} {killed : Bool} {dst : List UInt8} :
    Same s (consolereadLoop target killed n dst s).1 := by
  induction n generalizing dst s with
  | zero => exact ⟨rfl, rfl, rfl⟩
  | succ n ih =>
    unfold consolereadLoop
    split
    · exact ⟨rfl, rfl, rfl⟩
    split
    · split <;> exact ⟨rfl, rfl, rfl⟩
    split
    · exact ⟨rfl, rfl, rfl⟩
    · exact (⟨rfl, rfl, rfl⟩ : Same s { s with r := s.r + 1 }).trans ih

end Console

/-! ### Runs -/

namespace Tty

variable {t t' : Tty} {ev : TtyEvent} {evs : List TtyEvent} {P : Console → UInt8 → Prop}
  {I : Console → Prop}

/-- A step handles a key or lets a reader go on. -/
lemma step_cases (hs : t.step ev = .ok t') :
    (∃ c, ev = .key c ∧ t.console.consoleintr c = .ok t'.console) ∨ t'.console = t.console ∨
    ∃ target killed n dst, t'.console = (consolereadLoop target killed n dst t.console).1 := by
  cases ev with
  | key c =>
    obtain ⟨s, h, hs⟩ := Console.bind_ok hs
    obtain rfl := Except.ok.inj hs
    exact .inl ⟨c, rfl, h⟩
  | read p n killed =>
    cases hr : t.readers p with
    | returned result dst =>
      rw [step, hr] at hs
      obtain rfl := Except.ok.inj hs
      exact .inr (.inr ⟨_, _, _, _, rfl⟩)
    | waiting target n dst =>
      rw [step, hr] at hs
      obtain rfl := Except.ok.inj hs
      exact .inr (.inl rfl)
  | wake p killed =>
    cases hr : t.readers p with
    | returned result dst =>
      rw [step, hr] at hs
      obtain rfl := Except.ok.inj hs
      exact .inr (.inl rfl)
    | waiting target n dst =>
      rw [step, hr] at hs
      obtain rfl := Except.ok.inj hs
      exact .inr (.inr ⟨_, _, _, _, rfl⟩)

/-- A step succeeds if its key does. -/
lemma step_ok_iff : (∃ t', t.step ev = .ok t') ↔
    ∀ c, ev = .key c → ∃ s', t.console.consoleintr c = .ok s' := by
  cases ev with
  | key c =>
    constructor
    · rintro ⟨t', hs⟩ c' hc
      obtain rfl := TtyEvent.key.inj hc
      obtain ⟨s, h, -⟩ := Console.bind_ok hs
      exact ⟨s, h⟩
    · intro h
      obtain ⟨s, hs⟩ := h c rfl
      unfold step
      exact ⟨_, congrArg (· >>= _) hs⟩
  | read p n killed =>
    refine iff_of_true ?_ nofun
    cases hr : t.readers p <;> exact ⟨_, by rw [step, hr]⟩
  | wake p killed =>
    refine iff_of_true ?_ nofun
    cases hr : t.readers p <;> exact ⟨_, by rw [step, hr]⟩

/-- What keys that meet a condition, and readers, preserve holds at the end of a run. -/
lemma run_inv (hkey : ∀ s c s', I s → P s c → s.consoleintr c = .ok s' → I s')
    (hread : ∀ s target killed n dst, I s → I (consolereadLoop target killed n dst s).1)
    (h : I t.console) (hP : Along P evs t) (hrun : run evs t = .ok t') : I t'.console := by
  induction evs generalizing t with
  | nil =>
    obtain rfl := Except.ok.inj hrun
    exact h
  | cons ev evs ih =>
    obtain ⟨t1, h₁, hrun⟩ := Console.bind_ok hrun
    refine ih ?_ (hP.2 t1 h₁) hrun
    rcases step_cases h₁ with ⟨c, rfl, hs⟩ | he | ⟨target, killed, n, dst, he⟩
    · exact hkey _ c _ h (hP.1 c rfl) hs
    · rw [he]
      exact h
    · rw [he]
      exact hread _ _ _ _ _ h

lemma step_historyOk (h : t.console.HistoryOk) (hs : t.step ev = .ok t') :
    t'.console.HistoryOk := by
  rcases step_cases hs with ⟨c, -, hs⟩ | he | ⟨target, killed, n, dst, he⟩
  · exact Console.consoleintr_historyOk h hs
  · rw [he]
    exact h
  · rw [he]
    exact h.same Console.consolereadLoop_same

lemma run_ok_iff (h : t.console.HistoryOk) :
    (∃ t', run evs t = .ok t') ↔ Along Console.KeyInBounds evs t := by
  induction evs generalizing t with
  | nil => exact iff_of_true ⟨t, rfl⟩ trivial
  | cons ev evs ih =>
    have hstep : (∃ t', t.step ev = .ok t') ↔ ∀ c, ev = .key c → t.console.KeyInBounds c := by
      rw [step_ok_iff]
      exact forall₂_congr fun c _ => Console.consoleintr_ok_iff h
    constructor
    · rintro ⟨t', hrun⟩
      obtain ⟨t1, h₁, hrun⟩ := Console.bind_ok hrun
      refine ⟨hstep.mp ⟨t1, h₁⟩, fun t2 h₂ => ?_⟩
      rw [h₁] at h₂
      obtain rfl := Except.ok.inj h₂
      exact (ih (step_historyOk h h₁)).mp ⟨t', hrun⟩
    · rintro ⟨hkey, hrest⟩
      obtain ⟨t1, h₁⟩ := hstep.mpr hkey
      obtain ⟨t', hrun⟩ := (ih (step_historyOk h h₁)).mpr (hrest t1 h₁)
      refine ⟨t', ?_⟩
      unfold run
      rw [h₁]
      exact hrun

end Tty

open Console in
/-- The line buffer stays well formed as long as a recall deletes characters of the line only. -/
theorem line_buffer_well_formed {evs : List TtyEvent} {t : Tty} (hown : Tty.Along RecallsOwn evs {})
    (hrun : Tty.run evs {} = .ok t) :
    t.console.w - t.console.r ≤ t.console.e - t.console.r ∧ t.console.e - t.console.r ≤ 128 ∧
    ∀ c s', RecallsOwn t.console c → t.console.consoleintr c = .ok s' → Keeps t.console s' := by
  have h : Ordered t.console := Tty.run_inv
    (fun s c s' h hP hs => (consoleintr_ordered h hP hs).1)
    (fun s target killed n dst h => consolereadLoop_ordered h) ⟨by decide, by decide⟩ hown hrun
  exact ⟨h.commit, h.size, fun c s' hc hs => (consoleintr_ordered h hc hs).2⟩

/-- Keys, one after the other. -/
def typed (keys : List UInt8) : List TtyEvent := keys.map .key

theorem line_buffer_well_formed_recall :
    ∃ t, Tty.run (typed [97, newline, KEY_UP]) {} = .ok t ∧
      (t.console.r, t.console.w, t.console.e) = (0, 2, 3) ∧ t.console.e - t.console.r ≤ 128 := by
  obtain ⟨t, ht, hidx⟩ : ∃ t, Tty.run (typed [97, newline, KEY_UP]) {} = .ok t ∧
    (t.console.r, t.console.w, t.console.e) = (0, 2, 3) := ⟨_, rfl, rfl⟩
  have hup : ∀ c, c ≠ KEY_UP → c ≠ KEY_DN → ∀ s, Console.RecallsOwn s c :=
    fun c h1 h2 s => ⟨fun e => absurd e h1, fun e => absurd e h2⟩
  have hown : Tty.Along Console.RecallsOwn (typed [97, newline, KEY_UP]) {} := by
    refine ⟨fun c hc => ?_, fun t1 h₁ => ⟨fun c hc => ?_, fun t2 h₂ => ⟨fun c hc => ?_,
      fun _ _ => trivial⟩⟩⟩
    · obtain rfl := TtyEvent.key.inj hc
      exact hup _ (by decide) (by decide) _
    · obtain rfl := TtyEvent.key.inj hc
      exact hup _ (by decide) (by decide) _
    · -- no line has been recalled yet
      obtain rfl := Except.ok.inj h₁
      obtain rfl := Except.ok.inj h₂
      exact ⟨fun _ _ => Nat.zero_le _, fun _ _ => Nat.zero_le _⟩
  exact ⟨t, ht, hidx, (line_buffer_well_formed hown ht).2.1⟩

/-- Up, kill the line, and up again: the characters that `^U` has deleted are deleted once more, and
the line that is recalled goes over a line that is committed. -/
theorem recall_overwrites_committed :
    ∃ t s', Tty.run (typed [97, newline, 98, 98, newline, KEY_UP, ctrl 'U']) {} = .ok t ∧
      t.console.consoleintr KEY_UP = .ok s' ∧ ¬Console.Keeps t.console s' ∧
      ¬s'.w - s'.r ≤ s'.e - s'.r := by
  obtain ⟨t, s', ht, hs, h⟩ :
      ∃ t s', Tty.run (typed [97, newline, 98, 98, newline, KEY_UP, ctrl 'U'])
      {} = .ok t ∧ t.console.consoleintr KEY_UP = .ok s' ∧
      (t.console.r, t.console.w, s'.r, s'.w, s'.e, t.console.buf (slot 3), s'.buf (slot 3)) =
        (0, 5, 0, 5, 4, 98, 97) := ⟨_, _, rfl, rfl, rfl⟩
  simp only [Prod.mk.injEq] at h
  obtain ⟨hr, hw, hr', hw', he', hb, hb'⟩ := h
  refine ⟨t, s', ht, hs, fun hk => ?_, by rw [hr', hw', he']; decide⟩
  have := hk 3 (by rw [hr, hw]; decide)
  rw [hr, show (0 + 3 : BitVec 32) = 3 from rfl, hb, hb'] at this
  cases this

/-- Accesses to the history stay in bounds if and only if every key meets the condition. -/
theorem history_in_bounds_iff (evs : List TtyEvent) :
    (∃ t, Tty.run evs {} = .ok t) ↔ Tty.Along Console.KeyInBounds evs {} :=
  Tty.run_ok_iff ⟨by decide, by decide, fun _ => rfl⟩

set_option maxRecDepth 2000 in
/-- The eleventh line, a line that fills the buffer, and `KEY_DN` after `KEY_UP` twice. -/
theorem history_out_of_bounds :
    Tty.run (typed (List.replicate 11 newline)) {} = .error (10, 0) ∧
    Tty.run (typed (List.replicate 128 97)) {} = .error (0, -1) ∧
    Tty.run (typed [KEY_UP, KEY_UP, KEY_DN]) {} = .error (-1, 0) :=
  ⟨rfl, rfl, rfl⟩

end Xv6.Kernel
