import Xv6.Kernel.Console
import Xv6.Lib.Ring

/-!
# The line discipline

What the readers of the console get, said without the buffer and its indices. A reference editor has
the bytes that were committed, the line that is being typed and how many of the committed bytes the
readers have taken. The console follows it, from any value of its 32-bit indices.

Only `input` is of interest: `edit` is `consoleintr` for the keys that do not recall a line, with
the stores to the history left out. Where those are within bounds nothing else differs. -/

namespace Xv6.Kernel

open Lib List

/-! ### The console without its history -/

namespace Console

/-- What `consoleintr` does to `input`, for a key other than `KEY_UP` and `KEY_DN`. -/
def edit (s : Console) (c : UInt8) : Console :=
  if c = ctrl 'P' then s
  else if c = ctrl 'U' then killLine (s.e - s.w).toNat s
  else if c = ctrl 'H' || c = 0x7f then if s.e ≠ s.w then s.erase else s
  else if c ≠ 0 && s.room then
    if (s.put (stored c)).ends (stored c) then { s.put (stored c) with w := s.e + 1 }
    else s.put (stored c)
  else s

/-- `input` alone: the history is as it was at the start. -/
def input (s : Console) : Console := { buf := s.buf, r := s.r, w := s.w, e := s.e }

section

variable {s s' : Console} {c : UInt8}

@[simp] lemma input_input : s.input.input = s.input := rfl

lemma input_killLine (k : Nat) : (killLine k s).input = killLine k s.input := by
  induction k generalizing s with
  | zero => rfl
  | succ k ih =>
    unfold killLine
    rw [apply_ite input, ih]
    rfl

/-- The history is not read by an edit. -/
@[simp] lemma input_edit (c : UInt8) : (s.edit c).input = s.input.edit c := by
  unfold edit
  simp only [apply_ite input, input_killLine]
  rfl

lemma commit_input (hs : s.commit = .ok s') : s'.input = { s with w := s.e }.input := by
  obtain ⟨s1, h1, hs⟩ := bind_ok hs
  obtain rfl := Except.ok.inj hs
  obtain ⟨hbuf, hr, he⟩ := save_ok h1
  simp only [input, hbuf, hr, he]

lemma enter_input (hs : s.enter c = .ok s') :
    s'.input = (if (s.put c).ends c then { s.put c with w := s.e + 1 } else s.put c).input := by
  unfold enter at hs
  split_ifs at hs ⊢
  · exact commit_input hs
  · rw [Except.ok.inj hs]

/-- A key other than `KEY_UP` and `KEY_DN` does to `input` what `edit` says. -/
lemma consoleintr_input (hup : c ≠ KEY_UP) (hdn : c ≠ KEY_DN) (hs : s.consoleintr c = .ok s') :
    s'.input = s.input.edit c := by
  rw [← input_edit]
  unfold consoleintr at hs
  unfold edit
  rw [if_neg hup, if_neg hdn] at hs
  by_cases hp : c = ctrl 'P'
  · rw [if_pos hp] at hs ⊢
    rw [Except.ok.inj hs]
  rw [if_neg hp] at hs ⊢
  by_cases hu : c = ctrl 'U'
  · rw [if_pos hu] at hs ⊢
    rw [Except.ok.inj hs]
  rw [if_neg hu] at hs ⊢
  by_cases hh : (c = ctrl 'H' || c = 0x7f) = true
  · rw [if_pos hh] at hs ⊢
    rw [Except.ok.inj hs]
  rw [if_neg hh] at hs ⊢
  by_cases hroom : (c ≠ 0 && s.room) = true
  · rw [if_pos hroom] at hs ⊢
    exact enter_input hs
  · rw [if_neg hroom] at hs ⊢
    rw [Except.ok.inj hs]

/-- Nor by a reader. -/
lemma consolereadLoop_input {target n : Nat} {killed : Bool} {dst : List UInt8} :
    consolereadLoop target killed n dst s.input =
      ((consolereadLoop target killed n dst s).1.input,
        (consolereadLoop target killed n dst s).2) := by
  induction n generalizing dst s with
  | zero => rfl
  | succ n ih =>
    unfold consolereadLoop
    by_cases hempty : s.r = s.w
    · rw [if_pos (by exact hempty), if_pos hempty]
    rw [if_neg (by exact hempty), if_neg hempty]
    by_cases hd : s.buf (slot s.r) = ctrl 'D'
    · rw [if_pos (by exact hd), if_pos hd, apply_ite input]
      rfl
    rw [if_neg (by exact hd), if_neg hd]
    by_cases hnl : s.buf (slot s.r) = newline
    · rw [if_pos (by exact hnl), if_pos hnl]
      rfl
    · rw [if_neg (by exact hnl), if_neg hnl]
      rw [← ih]
      rfl

end

end Console

namespace Tty

/-- A step of the console without its history. -/
def editStep (t : Tty) : TtyEvent → Tty
  | .key c => { t with console := t.console.edit c }
  | .read p n killed =>
    match t.readers p with
    | .returned _ _ => t.read p n.toNat n.toNat [] killed
    | .waiting _ _ _ => t
  | .wake p killed =>
    match t.readers p with
    | .returned _ _ => t
    | .waiting target n dst => t.read p target n dst killed

def edits (t : Tty) (evs : List TtyEvent) : Tty := evs.foldl editStep t

section

variable {t : Tty} {p target m : Nat} {n result : Int} {dst : List UInt8} {killed : Bool}

@[simp] lemma editStep_key (c : UInt8) :
    (t.editStep (.key c)).readers = t.readers := rfl

lemma editStep_read (h : t.readers p = .returned result dst) :
    t.editStep (.read p n killed) = t.read p n.toNat n.toNat [] killed := by simp [editStep, h]

lemma editStep_busy (h : t.readers p = .waiting target m dst) :
    t.editStep (.read p n killed) = t := by simp [editStep, h]

lemma editStep_wake (h : t.readers p = .waiting target m dst) :
    t.editStep (.wake p killed) = t.read p target m dst killed := by simp [editStep, h]

lemma editStep_awake (h : t.readers p = .returned result dst) :
    t.editStep (.wake p killed) = t := by simp [editStep, h]

end

section

variable {t t' : Tty}

/-- The console without its history. -/
def input (t : Tty) : Tty := { t with console := t.console.input }

lemma read_input (p target n : Nat) (dst : List UInt8) (killed : Bool) :
    (t.read p target n dst killed).input = t.input.read p target n dst killed := by
  simp only [read, input, Console.consolereadLoop_input]

/-- A step other than a recall does to `input` what `editStep` says. -/
lemma step_input {ev : TtyEvent} (hkey : ∀ c, ev = .key c → c ≠ KEY_UP ∧ c ≠ KEY_DN)
    (hs : t.step ev = .ok t') : t'.input = t.input.editStep ev := by
  cases ev with
  | key c =>
    obtain ⟨hup, hdn⟩ := hkey c rfl
    obtain ⟨s', hs', ht'⟩ := Console.bind_ok hs
    rw [← Except.ok.inj ht']
    simp only [input, editStep, Console.consoleintr_input hup hdn hs']
  | read p n killed =>
    unfold step at hs
    cases hp : t.readers p with
    | returned result dst =>
      simp only [hp] at hs
      rw [← Except.ok.inj hs, editStep_read (by exact hp), read_input]
    | waiting target m dst =>
      simp only [hp] at hs
      rw [← Except.ok.inj hs, editStep_busy (by exact hp)]
  | wake p killed =>
    unfold step at hs
    cases hp : t.readers p with
    | returned result dst =>
      simp only [hp] at hs
      rw [← Except.ok.inj hs, editStep_awake (by exact hp)]
    | waiting target m dst =>
      simp only [hp] at hs
      rw [← Except.ok.inj hs, editStep_wake (by exact hp), read_input]

/-- A run without recalls in which no access to the history is out of bounds is a run of the console
without its history. -/
lemma run_input {evs : List TtyEvent} (hkeys : ∀ c, .key c ∈ evs → c ≠ KEY_UP ∧ c ≠ KEY_DN)
    (hs : run evs t = .ok t') : t'.input = t.input.edits evs := by
  induction evs generalizing t with
  | nil => rw [← Except.ok.inj hs]; rfl
  | cons ev evs ih =>
    obtain ⟨t1, h1, hs⟩ := Console.bind_ok hs
    have hstep := step_input (fun c hc => hkeys c (by simp [hc])) h1
    rw [ih (fun c hc => hkeys c (by simp [hc])) hs, hstep]
    rfl

end

/-- A console with an empty buffer, whose indices are `i`. -/
def idle (buf : Nat → UInt8) (i : BitVec 32) : Tty :=
  { console := { buf := buf, r := i, w := i, e := i } }

end Tty

/-! ### The reference editor -/

/-- A byte at which no `consoleread` stops. -/
def Plain (c : UInt8) : Prop := c ≠ newline ∧ c ≠ ctrl 'D'

/-- The bytes of `l` that are text: all but the `^D`s. -/
def text (l : List UInt8) : List UInt8 := l.filter (· ≠ ctrl 'D')

@[simp] lemma text_nil : text [] = [] := rfl

@[simp] lemma text_append (l l' : List UInt8) : text (l ++ l') = text l ++ text l' := by
  simp [text]

@[simp] lemma text_newline : text [newline] = [newline] := rfl

@[simp] lemma text_eof : text [ctrl 'D'] = [] := rfl

lemma text_of_plain {l : List UInt8} (h : ∀ c ∈ l, Plain c) : text l = l := by
  unfold text
  rw [filter_eq_self]
  intro c hc
  simpa using (h c hc).2

/-- How a `consoleread` goes on that has `dst` and wants `n` bytes more, when the bytes `q` are
committed: it takes the first ones of `q`, gets `line`, and then returns or waits. -/
inductive Reads (target : Nat) (killed : Bool) (n : Nat) (dst : List UInt8) :
    List UInt8 → Nat → List UInt8 → Reading → Prop
  | full {line rest : List UInt8} (plain : ∀ c ∈ line, Plain c) (len : line.length = n) :
    Reads target killed n dst (line ++ rest) line.length line
      (.returned (dst ++ line).length (dst ++ line))
  | newline {line rest : List UInt8} (plain : ∀ c ∈ line, Plain c) (len : line.length < n) :
    Reads target killed n dst (line ++ newline :: rest) (line.length + 1) (line ++ [newline])
      (.returned (dst ++ (line ++ [newline])).length (dst ++ (line ++ [newline])))
  | eof {line rest : List UInt8} (plain : ∀ c ∈ line, Plain c) (len : line.length < n)
    (data : dst ++ line ≠ []) :
    Reads target killed n dst (line ++ ctrl 'D' :: rest) line.length line
      (.returned (dst ++ line).length (dst ++ line))
  | eofFirst {rest : List UInt8} (want : 0 < n) (none : dst = []) :
    Reads target killed n dst (ctrl 'D' :: rest) 1 [] (.returned 0 [])
  | waits {line : List UInt8} (plain : ∀ c ∈ line, Plain c) (len : line.length < n)
    (alive : killed = false) :
    Reads target killed n dst line line.length line (.waiting target (n - line.length)
      (dst ++ line))
  | killed {line : List UInt8} (plain : ∀ c ∈ line, Plain c) (len : line.length < n)
    (dead : killed = true) :
    Reads target killed n dst line line.length line (.returned (-1) (dst ++ line))

/-- The reference editor: the bytes committed so far, the line that is being typed, how many
committed bytes have been taken, what has been delivered, and the readers. -/
structure Editor where
  committed : List UInt8 := []
  line : List UInt8 := []
  taken : Nat := 0
  delivered : List UInt8 := []
  readers : Nat → Reading := fun _ => .returned 0 []

namespace Editor

/-- The committed bytes that no reader has taken. -/
def pending (ed : Editor) : List UInt8 := ed.committed.drop ed.taken

/-- The number of bytes in the buffer. -/
def held (ed : Editor) : Nat := ed.pending.length + ed.line.length

/-- The line becomes `l`. -/
def setLine (ed : Editor) (l : List UInt8) : Editor := { ed with line := l }

/-- The line is committed. -/
def commit (ed : Editor) : Editor :=
  { ed with committed := ed.committed ++ ed.line, line := [] }

/-- A line ends at a newline, at `^D` and when the buffer is full. -/
def Ends (ed : Editor) (c : UInt8) : Prop := c = newline ∨ c = ctrl 'D' ∨ ed.held = INPUT_BUF

instance (ed : Editor) (c : UInt8) : Decidable (ed.Ends c) :=
  inferInstanceAs (Decidable (_ ∨ _ ∨ _))

/-- A character is added to the line, which it may end. -/
def type (ed : Editor) (c : UInt8) : Editor :=
  if (ed.setLine (ed.line ++ [c])).Ends c then (ed.setLine (ed.line ++ [c])).commit
  else ed.setLine (ed.line ++ [c])

/-- A key. `^P` and NUL are no input. -/
def key (ed : Editor) (c : UInt8) : Editor :=
  if c = ctrl 'P' ∨ c = 0 then ed
  else if c = ctrl 'U' then ed.setLine []
  else if c = ctrl 'H' ∨ c = 0x7f then ed.setLine ed.line.dropLast
  else if ed.held = INPUT_BUF then ed
  else ed.type (if c = 13 then newline else c)

/-- Process `p` takes `k` committed bytes and gets `line`. -/
def take (ed : Editor) (p k : Nat) (line : List UInt8) (res : Reading) : Editor :=
  { ed with
    taken := ed.taken + k
    delivered := ed.delivered ++ line
    readers := upd ed.readers p res }

inductive Step : Editor → TtyEvent → Editor → Prop
  | key (ed : Editor) (c : UInt8) : Step ed (.key c) (ed.key c)
  | read {ed : Editor} {p k : Nat} {n result : Int} {killed : Bool} {dst line : List UInt8}
    {res : Reading} (idle : ed.readers p = .returned result dst)
    (h : Reads n.toNat killed n.toNat [] ed.pending k line res) :
    Step ed (.read p n killed) (ed.take p k line res)
  | wake {ed : Editor} {p k target n : Nat} {killed : Bool} {dst line : List UInt8}
    {res : Reading} (asleep : ed.readers p = .waiting target n dst)
    (h : Reads target killed n dst ed.pending k line res) :
    Step ed (.wake p killed) (ed.take p k line res)
  | busy {ed : Editor} {p target m : Nat} {dst : List UInt8} (n : Int) (killed : Bool)
    (asleep : ed.readers p = .waiting target m dst) : Step ed (.read p n killed) ed
  | awake {ed : Editor} {p : Nat} {result : Int} {dst : List UInt8} (killed : Bool)
    (idle : ed.readers p = .returned result dst) : Step ed (.wake p killed) ed

inductive Run : Editor → List TtyEvent → Editor → Prop
  | nil (ed : Editor) : Run ed [] ed
  | cons {ed ed1 ed2 : Editor} {ev : TtyEvent} {evs : List TtyEvent} (h : Step ed ev ed1)
    (hs : Run ed1 evs ed2) : Run ed (ev :: evs) ed2

end Editor

/-! ### The buffer -/

namespace Console

variable {s : Console} {q l : List UInt8} {c : UInt8}

/-- The buffer holds the committed bytes `q` and the line `l`. -/
structure Holds (s : Console) (q l : List UInt8) : Prop where
  w : s.w = s.r + BitVec.ofNat 32 q.length
  e : s.e = s.w + BitVec.ofNat 32 l.length
  le : q.length + l.length ≤ INPUT_BUF
  ring : Ring.Holds INPUT_BUF s.buf s.r.toNat (q ++ l)

namespace Holds

lemma toNat_w (h : Holds s q l) : s.w.toNat = (s.r.toNat + q.length) % 2 ^ 32 := by
  rw [h.w, BitVec.toNat_add, BitVec.toNat_ofNat, Nat.add_mod_mod]

lemma toNat_e (h : Holds s q l) : s.e.toNat = (s.r.toNat + (q ++ l).length) % 2 ^ 32 := by
  rw [h.e, BitVec.toNat_add, BitVec.toNat_ofNat, Nat.add_mod_mod, h.toNat_w, Nat.mod_add_mod,
    length_append, Nat.add_assoc]

lemma slot_e (h : Holds s q l) : slot s.e = (s.r.toNat + (q ++ l).length) % INPUT_BUF := by
  unfold slot
  rw [h.toNat_e, Nat.mod_mod_of_dvd]
  decide

lemma size (h : Holds s q l) : (s.e - s.r).toNat = (q ++ l).length := by
  have := h.le
  have := h.toNat_e
  have := s.r.isLt
  rw [BitVec.toNat_sub]
  simp only [INPUT_BUF, length_append] at *
  omega

lemma line_size (h : Holds s q l) : (s.e - s.w).toNat = l.length := by
  have := h.le
  rw [h.e, BitVec.add_comm, BitVec.add_sub_cancel, BitVec.toNat_ofNat]
  apply Nat.mod_eq_of_lt
  simp only [INPUT_BUF] at *
  omega

lemma e_eq_w (h : Holds s q l) : s.e = s.w ↔ l = [] := by
  rw [← length_eq_zero_iff, ← h.line_size]
  bv_omega

lemma r_eq_w (h : Holds s q l) : s.r = s.w ↔ q = [] := by
  have := h.le
  have := h.toNat_w
  rw [← length_eq_zero_iff]
  simp only [INPUT_BUF] at *
  bv_omega

lemma room (h : Holds s q l) : s.room = true ↔ (q ++ l).length < INPUT_BUF := by
  rw [← h.size]
  simp [Console.room, BitVec.lt_def, INPUT_BUF]

/-- Whether a character that has been put in has filled the buffer. -/
lemma full (h : Holds s q l) : s.e = s.r + 128 ↔ (q ++ l).length = INPUT_BUF := by
  rw [← h.size]
  simp only [INPUT_BUF]
  bv_omega

lemma put (h : Holds s q l) (hl : (q ++ l).length < INPUT_BUF) (c : UInt8) :
    Holds (s.put c) q (l ++ [c]) where
  w := h.w
  e := by
    simp [Console.put, h.e, BitVec.ofNat_add, BitVec.add_assoc]
  le := by
    simp at *
    omega
  ring := by
    rw [← append_assoc]
    change Ring.Holds INPUT_BUF (upd s.buf (slot s.e) c) s.r.toNat _
    rw [h.slot_e]
    exact h.ring.push hl c

lemma commit (h : Holds s q l) : Holds { s with w := s.e } (q ++ l) [] where
  w := by
    change s.e = s.r + BitVec.ofNat 32 (q ++ l).length
    rw [h.e, h.w, length_append, BitVec.ofNat_add, BitVec.add_assoc]
  e := by simp
  le := by simpa using h.le
  ring := by simpa using h.ring

lemma erase (h : Holds s q (l ++ [c])) : Holds s.erase q l where
  w := h.w
  e := by
    rw [Console.erase, h.e, length_append, BitVec.ofNat_add, ← BitVec.add_assoc]
    exact BitVec.add_sub_cancel _ _
  le := by
    have := h.le
    simp at *
    omega
  ring := by
    have hring := h.ring
    rw [← append_assoc, Ring.holds_append] at hring
    exact hring.1

/-- The last character of the line. -/
lemma last (h : Holds s q (l ++ [c])) : s.buf (slot (s.e - 1)) = c := by
  have hring := h.ring
  rw [← append_assoc, Ring.holds_append, Ring.holds_cons] at hring
  have hslot := h.erase.slot_e
  change slot (s.e - 1) = _ at hslot
  rw [hslot]
  exact hring.2.1

lemma killLine (h : Holds s q l) (hl : ∀ c ∈ l, Plain c) :
    Holds (Console.killLine l.length s) q [] := by
  induction l using List.reverseRecOn generalizing s with
  | nil => exact h
  | append_singleton l c ih =>
    have hne : s.e ≠ s.w := by simp [h.e_eq_w]
    have hc : c ≠ newline := (hl c (by simp)).1
    rw [length_append, length_singleton]
    rw [Console.killLine, h.last, if_pos (by simp [hne, hc])]
    apply ih h.erase
    intro c hc
    exact hl c (by simp [hc])

/-- A reader takes the first committed byte. -/
lemma next (h : Holds s (c :: q) l) :
    s.buf (slot s.r) = c ∧ Holds { s with r := s.r + 1 } q l := by
  have hring := h.ring
  rw [cons_append, Ring.holds_cons] at hring
  refine ⟨hring.1, ?_, h.e, ?_, hring.2.congr ?_⟩
  · change s.w = s.r + 1 + BitVec.ofNat 32 q.length
    rw [h.w, length_cons, Nat.add_comm, BitVec.ofNat_add, BitVec.add_assoc]
    rfl
  · have := h.le
    simp at *
    omega
  · change (s.r + 1).toNat % INPUT_BUF = _
    rw [BitVec.toNat_add, Nat.mod_mod_of_dvd]
    · rfl
    · decide

end Holds

end Console

/-! ### A reader -/

namespace Reads

variable {target n k : Nat} {killed : Bool} {dst q line : List UInt8} {res : Reading} {c : UInt8}

/-- A reader that has taken a plain byte goes on. -/
lemma cons (hc : Plain c) (h : Reads target killed n (dst ++ [c]) q k line res) :
    Reads target killed (n + 1) dst (c :: q) (k + 1) (c :: line) res := by
  have hplain : ∀ {line : List UInt8}, (∀ a ∈ line, Plain a) → ∀ a ∈ c :: line, Plain a := by
    intro line hline
    simpa [hc] using hline
  have happ : ∀ line : List UInt8, dst ++ [c] ++ line = dst ++ c :: line := by simp
  cases h with
  | @full _ rest plain len =>
    rw [happ]
    exact full (hplain plain) (by simpa using len)
  | @newline line rest plain len =>
    rw [happ]
    exact newline (hplain plain) (by simpa using len)
  | @eof _ rest plain len data =>
    rw [happ]
    exact eof (hplain plain) (by simpa using len) (by simp)
  | eofFirst want none => simp at none
  | waits plain len alive =>
    rw [happ]
    have := @waits target killed (n + 1) dst _ (hplain plain) (by simpa using len) alive
    rwa [length_cons, Nat.add_sub_add_right] at this
  | killed plain len dead =>
    rw [happ]
    exact Reads.killed (hplain plain) (by simpa using len) dead

lemma taken_le (h : Reads target killed n dst q k line res) : k ≤ q.length := by
  cases h <;> simp

/-- A reader gets the bytes that it takes, apart from a `^D`. -/
lemma line_eq (h : Reads target killed n dst q k line res) : line = text (q.take k) := by
  cases h with
  | full plain => simp [text_of_plain plain]
  | newline plain => simp [take_append, take_of_length_le, text_of_plain plain]
  | eof plain => simp [text_of_plain plain]
  | eofFirst => simp
  | waits plain => simp [text_of_plain plain]
  | killed plain => simp [text_of_plain plain]

/-- A reader that waits has as many bytes as it wanted less those that it still wants. -/
lemma waiting {target' n' : Nat} {dst' : List UInt8}
    (h : Reads target killed n dst q k line (.waiting target' n' dst'))
    (hlen : dst.length + n = target) : dst'.length + n' = target' := by
  cases h with
  | waits plain len =>
    rw [length_append]
    omega

end Reads

/-- What `consoleread` does between two waits. -/
lemma Console.Holds.consolereadLoop {s : Console} {q l dst : List UInt8} {target n : Nat}
    {killed : Bool} (h : s.Holds q l) (hlen : dst.length + n = target) :
    ∃ k line, Reads target killed n dst q k line (consolereadLoop target killed n dst s).2 ∧
      (consolereadLoop target killed n dst s).1.Holds (q.drop k) l := by
  induction n generalizing dst s q with
  | zero =>
    subst hlen
    refine ⟨0, [], ?_, h⟩
    have := @Reads.full dst.length killed 0 dst [] q (by simp) rfl
    rwa [append_nil] at this
  | succ n ih =>
    unfold Kernel.consolereadLoop
    cases q with
    | nil =>
      rw [if_pos (h.r_eq_w.mpr rfl)]
      refine ⟨0, [], ?_, h⟩
      cases killed with
      | false => simpa using @Reads.waits target false (n + 1) dst [] (by simp) (by simp) rfl
      | true => simpa using @Reads.killed target true (n + 1) dst [] (by simp) (by simp) rfl
    | cons c q =>
      obtain ⟨hbuf, hnext⟩ := h.next
      rw [if_neg (by simp [h.r_eq_w]), hbuf]
      by_cases hd : c = ctrl 'D'
      · subst hd
        rw [if_pos rfl]
        by_cases hdata : n + 1 < target
        · refine ⟨0, [], ?_, ?_⟩
          · have hne : dst ≠ [] := by
              rintro rfl
              simp at hlen
              omega
            have := @Reads.eof target killed (n + 1) dst [] q (by simp) (by simp)
              (by simpa using hne)
            have hres : (target : Int) - ((n : Int) + 1) = dst.length := by omega
            rw [hres]
            simpa using this
          · rw [if_pos hdata]
            have hr : s.r + 1 - 1 = s.r := BitVec.add_sub_cancel _ _
            rw [hr]
            exact h
        · refine ⟨1, [], ?_, ?_⟩
          · have hnil : dst = [] := by
              rw [← length_eq_zero_iff]
              omega
            have hres : (target : Int) - ((n : Int) + 1) = 0 := by
              simp [hnil] at hlen
              omega
            subst hnil
            rw [hres]
            exact Reads.eofFirst (by omega) rfl
          · rw [if_neg hdata]
            exact hnext
      · rw [if_neg hd]
        by_cases hnl : c = newline
        · subst hnl
          rw [if_pos rfl]
          refine ⟨1, [newline], ?_, hnext⟩
          have := @Reads.newline target killed (n + 1) dst [] q (by simp) (by simp)
          have hres : (target : Int) - n = (dst ++ [newline]).length := by
            simp
            omega
          rw [hres]
          exact this
        · rw [if_neg hnl]
          have hlen' : (dst ++ [c]).length + n = target := by
            simp
            omega
          obtain ⟨k, line, hreads, hholds⟩ := ih hnext hlen'
          exact ⟨k + 1, c :: line, hreads.cons ⟨hnl, hd⟩, hholds⟩

/-! ### Runs -/

namespace Editor

variable {ed ed' : Editor} {ev : TtyEvent} {evs : List TtyEvent} {c : UInt8}

/-- What holds of the reference editor at any time. -/
structure Ok (ed : Editor) : Prop where
  taken : ed.taken ≤ ed.committed.length
  plain : ∀ c ∈ ed.line, Plain c
  held : ed.held ≤ INPUT_BUF
  waiting : ∀ {p target n dst}, ed.readers p = .waiting target n dst → dst.length + n = target
  delivered : ed.delivered = text (ed.committed.take ed.taken)

@[simp] lemma pending_setLine (l : List UInt8) : (ed.setLine l).pending = ed.pending := rfl

@[simp] lemma line_setLine (l : List UInt8) : (ed.setLine l).line = l := rfl

@[simp] lemma held_setLine (l : List UInt8) :
    (ed.setLine l).held = ed.pending.length + l.length := rfl

@[simp] lemma line_commit : ed.commit.line = [] := rfl

@[simp] lemma readers_key (c : UInt8) : (ed.key c).readers = ed.readers := by
  unfold key type
  split_ifs <;> rfl

lemma Ok.pending_commit (h : ed.Ok) (l : List UInt8) :
    (ed.setLine l).commit.pending = ed.pending ++ l := drop_append_of_le_length h.taken

lemma Ok.setLine {l : List UInt8} (h : ed.Ok) (hplain : ∀ c ∈ l, Plain c)
    (hl : ed.pending.length + l.length ≤ INPUT_BUF) : (ed.setLine l).Ok where
  taken := h.taken
  plain := hplain
  held := hl
  waiting := h.waiting
  delivered := h.delivered

lemma Ok.commit {l : List UInt8} (h : ed.Ok) (hl : ed.pending.length + l.length ≤ INPUT_BUF) :
    (ed.setLine l).commit.Ok where
  taken := h.taken.trans (by simp [Editor.commit, Editor.setLine])
  plain := by simp
  held := by
    rw [Editor.held, h.pending_commit]
    simpa using hl
  waiting := h.waiting
  delivered := by
    simp [Editor.commit, Editor.setLine, h.delivered, take_append_of_le_length h.taken]

lemma Ok.take {p k target n : Nat} {killed : Bool} {dst line : List UInt8} {res : Reading}
    (h : ed.Ok) (hlen : dst.length + n = target)
    (hr : Reads target killed n dst ed.pending k line res) : (ed.take p k line res).Ok where
  taken := by
    have := hr.taken_le
    have := h.taken
    simp [Editor.take, Editor.pending] at *
    omega
  plain := h.plain
  held := by
    have := h.held
    simp [Editor.take, Editor.held, Editor.pending] at *
    omega
  waiting := by
    intro p' target' n' dst' hp'
    by_cases hp : p' = p
    · subst hp
      simp [Editor.take] at hp'
      subst hp'
      exact hr.waiting hlen
    · simp [Editor.take, upd_ne hp] at hp'
      exact h.waiting hp'
  delivered := by
    simp [Editor.take, h.delivered, hr.line_eq, Editor.pending, take_add]

end Editor

section

variable {s : Console} {ed : Editor} {c : UInt8}

/-- A character is put in. -/
lemma Console.Holds.type (h : s.Holds ed.pending ed.line) (hed : ed.Ok)
    (hroom : ed.held < INPUT_BUF) :
    Console.Holds (if (s.put c).ends c then { s.put c with w := s.e + 1 } else s.put c)
      (ed.type c).pending (ed.type c).line ∧ (ed.type c).Ok := by
  have hput := h.put (by rwa [length_append]) c
  have hlen := hput.le
  have hends : (s.put c).ends c = true ↔ (ed.setLine (ed.line ++ [c])).Ends c := by
    unfold Editor.Ends
    rw [Editor.held_setLine, ← length_append, ← hput.full]
    simp [Console.ends, or_assoc]
  unfold Editor.type
  by_cases hc : (ed.setLine (ed.line ++ [c])).Ends c
  · rw [if_pos (hends.mpr hc), if_pos hc, hed.pending_commit]
    exact ⟨hput.commit, hed.commit hlen⟩
  · rw [if_neg (by rwa [hends]), if_neg hc]
    refine ⟨hput, hed.setLine ?_ hlen⟩
    intro a ha
    rcases mem_append.mp ha with ha | ha
    · exact hed.plain a ha
    · rw [mem_singleton.mp ha]
      exact ⟨fun h => hc (.inl h), fun h => hc (.inr (.inl h))⟩

/-- Backspace. -/
lemma Console.Holds.backspace (h : s.Holds ed.pending ed.line) (hed : ed.Ok) :
    Console.Holds (if s.e ≠ s.w then s.erase else s) ed.pending ed.line.dropLast ∧
      (ed.setLine ed.line.dropLast).Ok := by
  have hok : (ed.setLine ed.line.dropLast).Ok := by
    apply hed.setLine
    · intro a ha
      exact hed.plain a (mem_of_mem_dropLast ha)
    · have := hed.held
      simp only [Editor.held, length_dropLast] at *
      omega
  refine ⟨?_, hok⟩
  rcases eq_nil_or_concat ed.line with hnil | ⟨l, a, hl⟩
  · rw [if_neg (by simp [h.e_eq_w, hnil]), hnil]
    rwa [hnil] at h
  · rw [concat_eq_append] at hl
    rw [if_pos (by simp [h.e_eq_w, hl]), hl, dropLast_concat]
    rw [hl] at h
    exact h.erase

/-- A key. -/
lemma Console.Holds.key (h : s.Holds ed.pending ed.line) (hed : ed.Ok) :
    (s.edit c).Holds (ed.key c).pending (ed.key c).line ∧ (ed.key c).Ok := by
  have hheld := hed.held
  have hroom : s.room = true ↔ ed.held < INPUT_BUF := by
    rw [h.room, length_append]
    rfl
  unfold Console.edit Editor.key
  by_cases hp : c = ctrl 'P'
  · simp only [hp, if_pos, true_or]
    exact ⟨h, hed⟩
  rw [if_neg hp]
  by_cases h0 : c = 0
  · subst h0
    exact ⟨h, hed⟩
  have hinput : ¬(c = ctrl 'P' ∨ c = 0) := by simp [hp, h0]
  rw [if_neg hinput]
  by_cases hu : c = ctrl 'U'
  · rw [if_pos hu, if_pos hu, h.line_size]
    refine ⟨h.killLine hed.plain, hed.setLine (by simp) ?_⟩
    exact (Nat.le_add_right _ _).trans hheld
  rw [if_neg hu, if_neg hu]
  by_cases hh : c = ctrl 'H' ∨ c = 0x7f
  · rw [if_pos (by simpa using hh), if_pos hh]
    exact h.backspace hed
  rw [if_neg (by simpa using hh), if_neg hh]
  by_cases hfull : ed.held = INPUT_BUF
  · rw [if_pos hfull, if_neg (by simp [hroom, hfull])]
    exact ⟨h, hed⟩
  · have hlt : ed.held < INPUT_BUF := by omega
    rw [if_neg hfull, if_pos (by simp [hroom, h0, hlt])]
    exact h.type hed hlt

end

namespace Tty

variable {t : Tty} {ed : Editor} {ev : TtyEvent} {evs : List TtyEvent}

/-- The console follows the reference editor. -/
structure Follows (t : Tty) (ed : Editor) : Prop where
  holds : t.console.Holds ed.pending ed.line
  readers : t.readers = ed.readers

/-- A process runs in `consoleread`. -/
lemma Follows.read {p target n : Nat} {dst : List UInt8} {killed : Bool} (h : Follows t ed)
    (hed : ed.Ok) (hlen : dst.length + n = target) :
    ∃ k line res, Reads target killed n dst ed.pending k line res ∧
      Follows (t.read p target n dst killed) (ed.take p k line res) ∧
      (ed.take p k line res).Ok := by
  obtain ⟨k, line, hreads, hholds⟩ := h.holds.consolereadLoop hlen
  refine ⟨k, line, _, hreads, ⟨?_, ?_⟩, hed.take hlen hreads⟩
  · unfold Editor.pending at hholds
    rwa [drop_drop] at hholds
  · simp [Tty.read, Editor.take, h.readers]

lemma Follows.step (h : Follows t ed) (hed : ed.Ok) (ev : TtyEvent) :
    ∃ ed', Editor.Step ed ev ed' ∧ Follows (t.editStep ev) ed' ∧ ed'.Ok := by
  cases ev with
  | key c =>
    obtain ⟨hholds, hok⟩ := h.holds.key hed
    exact ⟨ed.key c, .key ed c, ⟨hholds, by simpa using h.readers⟩, hok⟩
  | read p n killed =>
    cases hp : ed.readers p with
    | returned result dst =>
      have hlen : ([] : List UInt8).length + n.toNat = n.toNat := Nat.zero_add _
      obtain ⟨k, line, res, hreads, hnext⟩ := h.read hed hlen
      rw [editStep_read (by rw [h.readers, hp])]
      exact ⟨_, .read hp hreads, hnext⟩
    | waiting target m dst =>
      rw [editStep_busy (by rw [h.readers, hp])]
      exact ⟨ed, .busy n killed hp, h, hed⟩
  | wake p killed =>
    cases hp : ed.readers p with
    | returned result dst =>
      rw [editStep_awake (by rw [h.readers, hp])]
      exact ⟨ed, .awake killed hp, h, hed⟩
    | waiting target m dst =>
      obtain ⟨k, line, res, hreads, hnext⟩ := h.read hed (hed.waiting hp)
      rw [editStep_wake (by rw [h.readers, hp])]
      exact ⟨_, .wake hp hreads, hnext⟩

lemma Follows.run (h : Follows t ed) (hed : ed.Ok) (evs : List TtyEvent) :
    ∃ ed', Editor.Run ed evs ed' ∧ Follows (t.edits evs) ed' ∧ ed'.Ok := by
  induction evs generalizing t ed with
  | nil => exact ⟨ed, .nil ed, h, hed⟩
  | cons ev evs ih =>
    obtain ⟨ed1, hstep, h1, hed1⟩ := h.step hed ev
    obtain ⟨ed2, hrun, h2⟩ := ih h1 hed1
    exact ⟨ed2, .cons hstep hrun, h2⟩

lemma follows_idle (buf : Nat → UInt8) (i : BitVec 32) : Follows (idle buf i) {} where
  holds :=
    { w := (BitVec.add_zero i).symm
      e := (BitVec.add_zero i).symm
      le := Nat.zero_le _
      ring := Ring.Holds.nil }
  readers := rfl

end Tty

lemma Editor.ok_start : ({} : Editor).Ok where
  taken := Nat.le_refl _
  plain := by simp
  held := Nat.zero_le _
  waiting := by simp
  delivered := rfl

/-- **The line discipline.** For any keys but `KEY_UP` and `KEY_DN`, any calls of `consoleread`
among them and any value of the indices at the start, the readers of the console are those of a run
of the reference editor: each gets the same bytes and returns or waits as there. What they have got
is the text of the bytes taken so far, which are the first ones of those committed, in order. The
same holds of every run of the console with its history. -/
theorem line_discipline (buf : Nat → UInt8) (i : BitVec 32) (evs : List TtyEvent)
    (hkeys : ∀ c, .key c ∈ evs → c ≠ KEY_UP ∧ c ≠ KEY_DN) :
    ∃ ed : Editor, Editor.Run {} evs ed ∧
      ((Tty.idle buf i).edits evs).readers = ed.readers ∧
      (∀ t, Tty.run evs (Tty.idle buf i) = .ok t → t.readers = ed.readers) ∧
      ed.delivered = text (ed.committed.take ed.taken) ∧
      ed.taken ≤ ed.committed.length := by
  obtain ⟨ed, hrun, hfollows, hok⟩ := (Tty.follows_idle buf i).run Editor.ok_start evs
  refine ⟨ed, hrun, hfollows.readers, ?_, hok.delivered, hok.taken⟩
  intro t ht
  have hinput := Tty.run_input hkeys ht
  rw [← hfollows.readers]
  change t.input.readers = _
  rw [hinput]
  rfl

/-- `a`, backspace, `b`, carriage return, with the indices about to wrap: a reader of ten bytes gets
`b` and a newline. -/
theorem line_discipline_wrap :
    ∃ ed : Editor, Editor.Run {} [.key 97, .key 8, .key 98, .key 13, .read 0 10 false] ed ∧
      ed.readers 0 = .returned 2 [98, 10] := by
  obtain ⟨ed, hrun, hreaders, -⟩ := line_discipline (fun _ => 0) (BitVec.ofNat 32 (2 ^ 32 - 1))
    [.key 97, .key 8, .key 98, .key 13, .read 0 10 false] (by simp; decide)
  refine ⟨ed, hrun, ?_⟩
  rw [← hreaders]
  rfl

end Xv6.Kernel
