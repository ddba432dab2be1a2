import Xv6.Lib.Threads
import Xv6.Fs.File
import Xv6.Fs.ReadWrite

/-!
# Processes that share a `struct file`

Any number of processes call `filewrite` and `fileread` on one `struct file` over a regular file.
The code is that of `FileOps`. The file is the array of bytes that `readi` and `writei` make of it,
which is so for its first `SMALLFILE` blocks (`wp_writei_array`); `begin_trans`, `ilock`, the calls
of `readi` and `writei`, each access to `f->off`, `iunlock` and `commit_trans` are actions of their
own, so that the processes interleave between any two of them. The events record what each call has
moved and what its caller gets from it.
-/

namespace Xv6

open Lib Prog List Function

namespace SharedFile

/-- A call and its arguments; `src` are the `n` bytes at `addr`. -/
inductive Op
  | write (n : Int) (src : List Byte)
  | read (n : Int)
  deriving DecidableEq

/-- The calls are numbered, to tell them apart. -/
structure Call where
  id : Nat
  op : Op
  deriving DecidableEq

/-- What is told of the calls. -/
inductive Event
  /-- `readi` or `writei` has moved bytes at `off`. -/
  | moved (c : Call) (off : Nat) (bytes : List Byte)
  | returned (c : Call) (r : Int)
  deriving DecidableEq

/-- The `struct file`, its inode, the lock of the log, and what is told. -/
structure Shared where
  readable : Bool
  writable : Bool
  off : Nat
  data : List Byte
  locked : Bool := false
  busy : Bool := false
  calls : Nat := 0
  events : List Event := []

inductive Label
  | tau
  | writei (off : Nat) (src : List Byte)

inductive Panic
  | shortFilewrite

abbrev P := Prog Label Shared Panic

/-! ### The code -/

/-- Look at the shared state. -/
def peek {α : Type} (f : Shared → α) : P α := .act .tau (fun _ => true) id fun s => .ret (f s)

/-- Wait for `g`, then change the shared state. -/
def await (g : Shared → Bool) (u : Shared → Shared) : P Unit := .act .tau g u fun _ => .ret ()

def beginTrans : P Unit := await (fun s => !s.busy) fun s => { s with busy := true }

def commitTrans : P Unit := await (fun _ => true) fun s => { s with busy := false }

def ilock : P Unit := await (fun s => !s.locked) fun s => { s with locked := true }

def iunlock : P Unit := await (fun _ => true) fun s => { s with locked := false }

/-- `writei`, called by `c`. -/
def writei (c : Call) (off : Nat) (src : List Byte) : P Int :=
  .act (.writei off src) (fun _ => true)
    (fun s => { s with
      data := (arrayWrite s.data off src).2
      events := s.events ++ [.moved c off src] })
    fun s => .ret (arrayWrite s.data off src).1

/-- `readi`, called by `c`. -/
def readi (c : Call) (off n : Nat) : P (Int × List Byte) :=
  .act .tau (fun _ => true)
    (fun s => { s with events := s.events ++ [.moved c off (arrayRead s.data off n).2] })
    fun s => .ret (arrayRead s.data off n)

/-- `if(r > 0) f->off += r`. -/
def addOff (r : Int) : P Unit :=
  if 0 < r then do
    let off ← peek Shared.off
    await (fun _ => true) fun s => { s with off := (off + r.toNat) % 2 ^ 32 }
  else pure ()

/-- A call gets its number. -/
def enter (op : Op) : P Call :=
  .act .tau (fun _ => true) (fun s => { s with calls := s.calls + 1 }) fun s => .ret ⟨s.calls, op⟩

/-- Call `c` returns `r`. -/
def leave (c : Call) (r : Int) : P Unit :=
  await (fun _ => true) fun s => { s with events := s.events ++ [.returned c r] }

/-- The calls that `c` makes on the file. -/
def fileOps (c : Call) : FileOps Label Shared Panic where
  beginTrans := beginTrans
  commitTrans := commitTrans
  ilock := ilock
  iunlock := iunlock
  off := peek Shared.off
  addOff := addOff
  writei := writei c
  shortFilewrite := .shortFilewrite

def filewrite (c : Call) (n : Int) (src : List Byte) : P Int := do
  let writable ← peek Shared.writable
  if !writable then pure (-1)
  else (fileOps c).filewrite n src

def fileread (c : Call) (n : Int) : P (Int × List Byte) := do
  let readable ← peek Shared.readable
  if !readable then pure (-1, [])
  else (fileOps c).fileread (readi c) n

/-- A process writes. -/
def write (n : Int) (src : List Byte) : P Unit := do
  let c ← enter (.write n src)
  let r ← filewrite c n src
  leave c r

/-- A process reads. -/
def read (n : Int) : P Unit := do
  let c ← enter (.read n)
  let (r, _) ← fileread c n
  leave c r

/-- The calls that processes make. -/
inductive Calls : Nat → P Unit → Prop
  | write (t : Nat) {n : Int} {src : List Byte} (h : src.length = n.toNat) : Calls t (write n src)
  | read (t : Nat) (n : Int) : Calls t (read n)

/-- No `writei` fails, and none writes behind the first `SMALLFILE` blocks. -/
def Succeeds (_ : Nat) (l : Label) (s : Shared) : Prop :=
  match l with
  | .writei off src => 0 ≤ (arrayWrite s.data off src).1 ∧ off + src.length ≤ SMALLFILE * BSIZE
  | .tau => True

abbrev Processes := Threads Nat Label Shared Panic

/-- The file before the first call. -/
def start (readable writable : Bool) (off : Nat) (data : List Byte) : Processes where
  state := { readable, writable, off, data }
  thread _ := .ret ()

/-! ### What the calls have moved -/

/-- The bytes that an event moves. -/
def Event.bytes : Event → List Byte
  | .moved _ _ b => b
  | .returned _ _ => []

def Event.call : Event → Call
  | .moved c _ _ => c
  | .returned c _ => c

/-- The number of bytes moved. -/
def total (l : List Event) : Nat := (l.flatMap Event.bytes).length

/-- The bytes that call `c` has moved. -/
def movedBy (c : Call) (l : List Event) : List Byte :=
  l.flatMap fun e => if e.call = c then e.bytes else []

@[simp] lemma total_nil : total [] = 0 := rfl

@[simp] lemma total_append {l1 l2 : List Event} : total (l1 ++ l2) = total l1 + total l2 := by
  simp [total]

@[simp] lemma total_moved {c : Call} {o : Nat} {b : List Byte} :
    total [.moved c o b] = b.length := by simp [total, Event.bytes]

@[simp] lemma total_returned {c : Call} {r : Int} : total [.returned c r] = 0 := rfl

@[simp] lemma movedBy_nil {c : Call} : movedBy c [] = [] := rfl

@[simp] lemma movedBy_append {c : Call} {l1 l2 : List Event} :
    movedBy c (l1 ++ l2) = movedBy c l1 ++ movedBy c l2 := by simp [movedBy]

@[simp] lemma movedBy_moved {c : Call} {o : Nat} {b : List Byte} :
    movedBy c [.moved c o b] = b := by simp [movedBy, Event.call, Event.bytes]

lemma movedBy_moved_ne {c c' : Call} {o : Nat} {b : List Byte} (h : c' ≠ c) :
    movedBy c [.moved c' o b] = [] := by simp [movedBy, Event.call, h]

@[simp] lemma movedBy_returned {c c' : Call} {r : Int} : movedBy c [.returned c' r] = [] := by
  simp [movedBy, Event.bytes]

/-- A call that no event is about has moved nothing. -/
lemma movedBy_eq_nil {c : Call} {l : List Event} (h : ∀ e ∈ l, e.call ≠ c) : movedBy c l = [] :=
  flatMap_eq_nil_iff.mpr fun e he => if_neg (h e he)

/-- What call `c` may return after it has moved the bytes `b`. -/
def Call.Result (writable : Bool) (c : Call) (b : List Byte) (r : Int) : Prop :=
  match c.op with
  | .write n src => if writable ∧ 0 ≤ n then b = src ∧ r = n else b = [] ∧ r = -1
  | .read _ => r = b.length ∨ b = [] ∧ r = -1

/-! ### The invariant -/

/-- What holds of the bytes of the file and of the events after a start in `s0`, if `cur t` is the
call that process `t` is in, with the bytes that it has moved. -/
structure Hist (s0 s : Shared) (cur : Nat → Option (Call × List Byte)) : Prop where
  writable : s.writable = s0.writable
  size : s.data.length ≤ SMALLFILE * BSIZE
  bound : s0.off + total s.events < 2 ^ 32
  consecutive : ∀ l1 l2 c o b, s.events = l1 ++ .moved c o b :: l2 → o = s0.off + total l1
  stored : ∀ c o b, .moved c o b ∈ s.events → ∀ n src, c.op = .write n src →
    (s.data.drop o).take b.length = b
  order : ∀ c n src, c.op = .write n src → movedBy c s.events <+: src
  fresh : ∀ e ∈ s.events, e.call.id < s.calls
  mine : ∀ t c b, cur t = some (c, b) → c.id < s.calls ∧ movedBy c s.events = b ∧
    ∀ r, .returned c r ∉ s.events
  distinct : ∀ t t' c b b', cur t = some (c, b) → cur t' = some (c, b') → t = t'
  returned : ∀ c r, .returned c r ∈ s.events → c.Result s0.writable (movedBy c s.events) r

section Hist

variable {s0 s s' : Shared} {cur : Nat → Option (Call × List Byte)} {t : Nat} {c : Call}
  {b : List Byte}

/-- Where the events of a run end, an event that is added is the last one or it is an old one. -/
lemma append_singleton_eq {l l1 l2 : List Event} {e e' : Event} (h : l ++ [e] = l1 ++ e' :: l2) :
    l1 = l ∧ e' = e ∨ ∃ l3, l = l1 ++ e' :: l3 := by
  rcases eq_nil_or_concat' l2 with rfl | ⟨l3, x, rfl⟩
  · obtain ⟨rfl, h2⟩ := append_inj' h rfl
    exact .inl ⟨rfl, (singleton_inj.mp h2).symm⟩
  · rw [← cons_append, ← append_assoc] at h
    exact .inr ⟨l3, (append_inj' h rfl).1⟩

/-- No two processes are in one call, if process `t` gets a call that no other process is in. -/
lemma distinct_update (h : ∀ t1 t2 c b1 b2, cur t1 = some (c, b1) → cur t2 = some (c, b2) → t1 = t2)
    (hnew : ∀ t' b', t' ≠ t → cur t' ≠ some (c, b')) (t1 t2 : Nat) (c' : Call)
    (b1 b2 : List Byte) (h₁ : update cur t (some (c, b)) t1 = some (c', b1))
    (h₂ : update cur t (some (c, b)) t2 = some (c', b2)) : t1 = t2 := by
  by_cases h1t : t1 = t <;> by_cases h2t : t2 = t
  · rw [h1t, h2t]
  · rw [h1t, update_self] at h₁
    rw [update_of_ne h2t] at h₂
    obtain ⟨rfl, -⟩ := Prod.mk.inj (Option.some.inj h₁)
    exact absurd h₂ (hnew t2 b2 h2t)
  · rw [h2t, update_self] at h₂
    rw [update_of_ne h1t] at h₁
    obtain ⟨rfl, -⟩ := Prod.mk.inj (Option.some.inj h₂)
    exact absurd h₁ (hnew t1 b1 h1t)
  · rw [update_of_ne h1t] at h₁
    rw [update_of_ne h2t] at h₂
    exact h t1 t2 c' b1 b2 h₁ h₂

/-- The lock and the offset are no part of it. -/
lemma Hist.congr (h : Hist s0 s cur) (hd : s'.data = s.data) (he : s'.events = s.events)
    (hc : s'.calls = s.calls) (hw : s'.writable = s.writable) : Hist s0 s' cur := by
  obtain ⟨h1, h2, h3, h4, h5, h6, h7, h8, h9, h10⟩ := h
  rw [← hd] at h2 h5
  rw [← he] at h3 h4 h5 h6 h7 h8 h10
  rw [← hc] at h7 h8
  exact ⟨hw.trans h1, h2, h3, h4, h5, h6, h7, h8, h9, h10⟩

/-- A range that has been moved ends where the next one begins. -/
lemma Hist.end_le (h : Hist s0 s cur) {o : Nat} {x : List Byte} (hx : .moved c o x ∈ s.events) :
    o + x.length ≤ s0.off + total s.events := by
  obtain ⟨l1, l2, he⟩ := append_of_mem hx
  have ho := h.consecutive l1 l2 c o x he
  rw [he, ← singleton_append, total_append, total_append, total_moved]
  omega

/-- A call begins. -/
lemma Hist.enter (h : Hist s0 s cur) (op : Op) (t : Nat) :
    Hist s0 { s with calls := s.calls + 1 }
      (update cur t (some (⟨s.calls, op⟩, []))) := by
  have hnew : ∀ e ∈ s.events, e.call ≠ ⟨s.calls, op⟩ := by
    intro e he heq
    have := h.fresh e he
    rw [heq] at this
    exact lt_irrefl _ this
  have hother : ∀ t' c b, cur t' = some (c, b) → c ≠ ⟨s.calls, op⟩ := by
    rintro t' c b ht rfl
    exact lt_irrefl _ (h.mine t' _ b ht).1
  refine ⟨h.writable, h.size, h.bound, h.consecutive, h.stored, h.order, ?_, ?_, ?_, h.returned⟩
  · intro e he
    exact (h.fresh e he).trans (Nat.lt_succ_self _)
  · intro t' c b ht
    by_cases hte : t' = t
    · subst hte
      rw [update_self] at ht
      obtain ⟨rfl, rfl⟩ := Prod.mk.inj (Option.some.inj ht)
      exact ⟨Nat.lt_succ_self _, movedBy_eq_nil hnew, fun r hr => hnew _ hr rfl⟩
    · rw [update_of_ne hte] at ht
      obtain ⟨h1, h2, h3⟩ := h.mine t' c b ht
      exact ⟨h1.trans (Nat.lt_succ_self _), h2, h3⟩
  · exact distinct_update h.distinct fun t' b' _ ht' => hother t' _ b' ht' rfl

/-- After a change for process `t` alone, a call that another process is in is another call. -/
lemma Hist.ne_of_ne (h : Hist s0 s cur) (ht : cur t = some (c, b)) {t' : Nat} {c' : Call}
    {b' : List Byte} (hne : t' ≠ t) (ht' : cur t' = some (c', b')) : c' ≠ c := by
  rintro rfl
  exact hne (h.distinct t' t c' b' b ht' ht)

/-- Call `c` moves the bytes `x` at the end of all that has been moved. -/
lemma Hist.move (h : Hist s0 s cur) (ht : cur t = some (c, b)) {x data : List Byte}
    (hsize : data.length ≤ SMALLFILE * BSIZE) (hbound : s0.off + total s.events + x.length < 2 ^ 32)
    (hkeep : ∀ o (y : List Byte), o + y.length ≤ s0.off + total s.events →
      (s.data.drop o).take y.length = y → (data.drop o).take y.length = y)
    (hnew : ∀ n src, c.op = .write n src →
      (data.drop (s0.off + total s.events)).take x.length = x ∧ b ++ x <+: src) :
    Hist s0 { s with
      data := data
      events := s.events ++ [.moved c (s0.off + total s.events) x] }
      (update cur t (some (c, b ++ x))) := by
  obtain ⟨hid, hb, hret⟩ := h.mine t c b ht
  have hmem : ∀ {e : Event}, e ∈ s.events ++ [.moved c (s0.off + total s.events) x] →
      e ∈ s.events ∨ e = .moved c (s0.off + total s.events) x := by
    intro e he
    rwa [mem_append, mem_singleton] at he
  have hself : movedBy c (s.events ++ [.moved c (s0.off + total s.events) x]) = b ++ x := by
    rw [movedBy_append, movedBy_moved, hb]
  have hother : ∀ c', c' ≠ c →
      movedBy c' (s.events ++ [.moved c (s0.off + total s.events) x]) = movedBy c' s.events := by
    intro c' hne
    rw [movedBy_append, movedBy_moved_ne hne.symm, append_nil]
  refine ⟨h.writable, hsize, ?_, ?_, ?_, ?_, ?_, ?_, ?_, ?_⟩
  · rw [total_append, total_moved, ← Nat.add_assoc]
    exact hbound
  · intro l1 l2 c' o y he
    rcases append_singleton_eq he with ⟨rfl, hlast⟩ | ⟨l3, hold⟩
    · cases hlast
      rfl
    · exact h.consecutive l1 l3 c' o y hold
  · intro c' o y hy n src hop
    rcases hmem hy with hy | hy
    · exact hkeep o y (h.end_le hy) (h.stored c' o y hy n src hop)
    · cases hy
      exact (hnew n src hop).1
  · intro c' n src hop
    by_cases hc : c' = c
    · subst hc
      rw [hself]
      exact (hnew n src hop).2
    · rw [hother c' hc]
      exact h.order c' n src hop
  · intro e he
    rcases hmem he with he | rfl
    · exact h.fresh e he
    · exact hid
  · intro t' c' b' ht'
    by_cases hte : t' = t
    · subst hte
      rw [update_self] at ht'
      obtain ⟨rfl, rfl⟩ := Prod.mk.inj (Option.some.inj ht')
      exact ⟨hid, hself, fun r hr => (hmem hr).elim (hret r) (by simp)⟩
    · rw [update_of_ne hte] at ht'
      obtain ⟨h1, h2, h3⟩ := h.mine t' c' b' ht'
      rw [← hother c' (h.ne_of_ne ht hte ht')] at h2
      exact ⟨h1, h2, fun r hr => (hmem hr).elim (h3 r) (by simp)⟩
  · exact distinct_update h.distinct fun t' b' hne ht' => h.ne_of_ne ht hne ht' rfl
  · intro c' r hr
    have hold : .returned c' r ∈ s.events := (hmem hr).elim id (by simp)
    have hne : c' ≠ c := by
      rintro rfl
      exact hret r hold
    rw [hother c' hne]
    exact h.returned c' r hold

/-- Call `c` returns. -/
lemma Hist.leave (h : Hist s0 s cur) (ht : cur t = some (c, b)) {r : Int}
    (hr : c.Result s0.writable b r) :
    Hist s0 { s with events := s.events ++ [.returned c r] } (update cur t none) := by
  obtain ⟨hid, hb, hret⟩ := h.mine t c b ht
  have hmem : ∀ {e : Event}, e ∈ s.events ++ [.returned c r] →
      e ∈ s.events ∨ e = .returned c r := by
    intro e he
    rwa [mem_append, mem_singleton] at he
  have hby : ∀ c', movedBy c' (s.events ++ [.returned c r]) = movedBy c' s.events := by
    intro c'
    rw [movedBy_append, movedBy_returned, append_nil]
  have hold : ∀ {t' c' b'}, update cur t none t' = some (c', b') →
      t' ≠ t ∧ cur t' = some (c', b') := by
    intro t' c' b' ht'
    by_cases hte : t' = t
    · rw [hte, update_self] at ht'
      cases ht'
    · rw [update_of_ne hte] at ht'
      exact ⟨hte, ht'⟩
  refine ⟨h.writable, h.size, ?_, ?_, ?_, ?_, ?_, ?_, ?_, ?_⟩
  · rw [total_append, total_returned]
    exact h.bound
  · intro l1 l2 c' o y he
    rcases append_singleton_eq he with ⟨-, hlast⟩ | ⟨l3, hold⟩
    · cases hlast
    · exact h.consecutive l1 l3 c' o y hold
  · intro c' o y hy
    exact h.stored c' o y ((hmem hy).elim id (by simp))
  · intro c' n src hop
    rw [hby]
    exact h.order c' n src hop
  · intro e he
    rcases hmem he with he | rfl
    · exact h.fresh e he
    · exact hid
  · intro t' c' b' ht'
    obtain ⟨hne, ht'⟩ := hold ht'
    obtain ⟨h1, h2, h3⟩ := h.mine t' c' b' ht'
    refine ⟨h1, (hby c').trans h2, fun r' hr' => (hmem hr').elim (h3 r') fun he => ?_⟩
    exact h.ne_of_ne ht hne ht' (by cases he; rfl)
  · intro t1 t2 c' b1 b2 h₁ h₂
    exact h.distinct t1 t2 c' b1 b2 (hold h₁).2 (hold h₂).2
  · intro c' r' hr'
    rw [hby]
    rcases hmem hr' with hr' | he
    · exact h.returned c' r' hr'
    · cases he
      rw [hb]
      exact hr

end Hist

/-- Where a process is. -/
inductive Mode
  | idle
  /-- In call `c`, which has moved the bytes `b`, without the lock of the inode. -/
  | out (c : Call) (b : List Byte)
  /-- With the lock: `f->off` is `off`, and `owed` bytes have been moved that it does not count. -/
  | held (c : Call) (b : List Byte) (off owed : Nat)

def Mode.cur : Mode → Option (Call × List Byte)
  | .idle => none
  | .out c b => some (c, b)
  | .held c b _ _ => some (c, b)

def Mode.isHeld : Mode → Bool
  | .held .. => true
  | _ => false

/-- The invariant: the bytes moved make up the offset, but for what the holder of the lock owes. -/
structure Inv (s0 s : Shared) (mode : Nat → Mode) : Prop where
  hist : Hist s0 s fun t => (mode t).cur
  free : s.locked = false → s.off = s0.off + total s.events
  held : ∀ t c b o w, mode t = .held c b o w →
    s.locked = true ∧ s.off = o ∧ o + w = s0.off + total s.events
  excl : ∀ t t', (mode t).isHeld = true → (mode t').isHeld = true → t = t'

section Inv

variable {s0 s s' : Shared} {mode : Nat → Mode} {t : Nat} {c : Call} {b b' : List Byte}
  {m m' : Mode} {o w o' w' : Nat}

lemma cur_update : (fun t' => (update mode t m t').cur) =
    update (fun t' => (mode t').cur) t m.cur :=
  funext fun t' => apply_update (fun _ => Mode.cur) mode t m t'

/-- A step of process `t` that changes neither its call nor what the call has moved. -/
lemma Inv.hist_same (h : Inv s0 s mode) (hm : mode t = m) (hcur : m'.cur = m.cur)
    (hd : s'.data = s.data) (he : s'.events = s.events) (hc : s'.calls = s.calls)
    (hw : s'.writable = s.writable) :
    Hist s0 s' fun t' => (update mode t m' t').cur := by
  rw [cur_update, hcur, ← hm, update_eq_self]
  exact h.hist.congr hd he hc hw

lemma isHeld_of_held (h : m = .held c b o w) : m.isHeld = true := by
  rw [h]
  rfl

/-- A step of a process without the lock. -/
lemma Inv.out (h : Inv s0 s mode) (hm' : m'.isHeld = false)
    (hlock : s'.locked = s.locked) (hoff : s'.off = s.off)
    (htotal : total s'.events = total s.events)
    (hist : Hist s0 s' fun t' => (update mode t m' t').cur) :
    Inv s0 s' (update mode t m') := by
  have hheld : ∀ {t'}, (update mode t m' t').isHeld = true →
      (mode t').isHeld = true ∧ update mode t m' t' = mode t' := by
    intro t' ht'
    by_cases hte : t' = t
    · rw [hte, update_self, hm'] at ht'
      cases ht'
    · rw [update_of_ne hte] at ht' ⊢
      exact ⟨ht', rfl⟩
  refine ⟨hist, ?_, ?_, ?_⟩
  · rw [hlock, hoff, htotal]
    exact h.free
  · intro t' c b o w ht'
    rw [hlock, hoff, htotal]
    exact h.held t' c b o w ((hheld (isHeld_of_held ht')).2.symm.trans ht')
  · intro t1 t2 h₁ h₂
    exact h.excl t1 t2 (hheld h₁).1 (hheld h₂).1

/-- If process `t` has or gets the lock then it alone has it. -/
lemma Inv.own (hist : Hist s0 s' fun t' => (update mode t (.held c b o w) t').cur)
    (hlock : s'.locked = true) (hoff : s'.off = o) (htotal : o + w = s0.off + total s'.events)
    (halone : ∀ t', (mode t').isHeld = true → t' = t) :
    Inv s0 s' (update mode t (.held c b o w)) := by
  have hheld : ∀ {t'}, (update mode t (.held c b o w) t').isHeld = true → t' = t := by
    intro t' ht'
    by_contra hte
    rw [update_of_ne hte] at ht'
    exact hte (halone t' ht')
  refine ⟨hist, ?_, ?_, ?_⟩
  · rw [hlock]
    intro hf
    cases hf
  · intro t' c' b' o' w' ht'
    rw [hheld (isHeld_of_held ht'), update_self] at ht'
    cases ht'
    exact ⟨hlock, hoff, htotal⟩
  · intro t1 t2 h₁ h₂
    rw [hheld h₁, hheld h₂]

/-- A step of the process that has the lock. -/
lemma Inv.keep (h : Inv s0 s mode) (hm : mode t = .held c b o w) (hlock : s'.locked = s.locked)
    (hoff : s'.off = o') (htotal : o' + w' = s0.off + total s'.events)
    (hist : Hist s0 s' fun t' => (update mode t (.held c b' o' w') t').cur) :
    Inv s0 s' (update mode t (.held c b' o' w')) :=
  Inv.own hist (hlock.trans (h.held t c b o w hm).1) hoff htotal
    fun t' ht' => h.excl t' t ht' (isHeld_of_held hm)

lemma Inv.lock (h : Inv s0 s mode) (hm : mode t = .out c b) (hfree : s.locked = false) :
    Inv s0 { s with locked := true } (update mode t (.held c b s.off 0)) := by
  refine Inv.own (h.hist_same hm rfl rfl rfl rfl rfl) rfl rfl (h.free hfree) fun t' ht' => ?_
  cases hmt : mode t' with
  | held c' b' o w => exact absurd ((h.held t' c' b' o w hmt).1.symm.trans hfree) (by simp)
  | idle =>
    rw [hmt] at ht'
    cases ht'
  | out c' b' =>
    rw [hmt] at ht'
    cases ht'

lemma Inv.unlock (h : Inv s0 s mode) (hm : mode t = .held c b o 0) :
    Inv s0 { s with locked := false } (update mode t (.out c b)) := by
  have hnone : ∀ {t'}, (update mode t (.out c b) t').isHeld = false := by
    intro t'
    by_contra hh
    rw [Bool.not_eq_false] at hh
    have hte : t' ≠ t := by
      rintro rfl
      rw [update_self] at hh
      cases hh
    rw [update_of_ne hte] at hh
    exact hte (h.excl t' t hh (isHeld_of_held hm))
  obtain ⟨-, hoff, htotal⟩ := h.held t c b o 0 hm
  refine ⟨h.hist_same hm rfl rfl rfl rfl rfl, fun _ => hoff.trans htotal, ?_, ?_⟩
  · intro t' c' b' o' w' ht'
    exact absurd (hnone.symm.trans (isHeld_of_held ht')) (by simp)
  · intro t1 t2 h₁
    exact absurd (hnone.symm.trans h₁) (by simp)

end Inv

/-! ### The calls keep the invariant -/

def outline (s0 : Shared) : Outline Nat Label Shared Mode where
  inv := Inv s0
  guar _ _ _ _ := True
  cond := Succeeds

section Safe

variable {s0 : Shared} {t : Nat} {c : Call} {b src : List Byte} {n r : Int}
  {o w : Nat} {m m' : Mode}

lemma safe_await (m' : Mode) {g : Shared → Bool} {u : Shared → Shared}
    (h : ∀ s mode, Inv s0 s mode → mode t = m → g s = true →
      Inv s0 (u s) (update mode t m')) :
    (await g u).safe (outline s0) t m fun _ m'' => m'' = m' :=
  fun s mode hJ hm hg _ => ⟨trivial, m', h s mode hJ hm hg, rfl⟩

lemma safe_peek {α : Type} {f : Shared → α} {Q : α → Mode → Prop}
    (h : ∀ s mode, Inv s0 s mode → mode t = m → Q (f s) m) :
    (peek f).safe (outline s0) t m Q := by
  intro s mode hJ hm _ _
  refine ⟨trivial, m, ?_, h s mode hJ hm⟩
  rw [← hm, update_eq_self]
  exact hJ

lemma safe_beginTrans :
    beginTrans.safe (outline s0) t (.out c b) fun _ m => m = .out c b :=
  safe_await _ fun _ _ hJ hm _ =>
    hJ.out rfl rfl rfl rfl (hJ.hist_same hm rfl rfl rfl rfl rfl)

lemma safe_commitTrans :
    commitTrans.safe (outline s0) t (.out c b) fun _ m => m = .out c b :=
  safe_await _ fun _ _ hJ hm _ =>
    hJ.out rfl rfl rfl rfl (hJ.hist_same hm rfl rfl rfl rfl rfl)

lemma safe_ilock :
    ilock.safe (outline s0) t (.out c b) fun _ m => ∃ o, m = .held c b o 0 := by
  intro s mode hJ hm hg _
  exact ⟨trivial, _, hJ.lock hm (by simpa using hg), _, rfl⟩

lemma safe_iunlock :
    iunlock.safe (outline s0) t (.held c b o 0) fun _ m => m = .out c b :=
  safe_await _ fun _ _ hJ hm _ => hJ.unlock hm

lemma safe_peek_off : (peek Shared.off).safe (outline s0) t (.held c b o w)
    fun off m => off = o ∧ m = .held c b o w :=
  safe_peek fun _ _ hJ hm => ⟨(hJ.held t c b o w hm).2.1, rfl⟩

/-- The bytes moved are added to the offset. -/
lemma safe_addOff (hr : r = (w : Int)) : (addOff r).safe (outline s0) t (.held c b o w)
    fun _ m => ∃ o', m = .held c b o' 0 := by
  unfold addOff
  split_ifs with hpos
  · refine safe_bind safe_peek_off ?_
    rintro off m ⟨rfl, rfl⟩
    refine safe_mono (safe_await (.held c b (off + w) 0) fun s mode hJ hm _ => ?_)
      fun _ _ hm => ⟨_, hm⟩
    obtain ⟨-, -, htotal⟩ := hJ.held t c b off w hm
    have hmod : (off + r.toNat) % 2 ^ 32 = off + w := by
      have := hJ.hist.bound
      rw [hr, Int.toNat_natCast]
      exact Nat.mod_eq_of_lt (by omega)
    exact hJ.keep hm rfl hmod htotal (hJ.hist_same hm rfl rfl rfl rfl rfl)
  · obtain rfl : w = 0 := by omega
    exact ⟨o, rfl⟩

/-- `writei` at the offset, by a call that has `src` to write next. -/
lemma safe_writei {full rest : List Byte} (hop : c.op = .write n full)
    (hfull : b ++ (src ++ rest) = full) :
    (writei c o src).safe (outline s0) t (.held c b o 0)
      fun r m => r = src.length ∧ m = .held c (b ++ src) o src.length := by
  rintro s mode hJ hm - ⟨hc, hmax⟩
  obtain ⟨-, hoff, htotal⟩ := hJ.held t c b o 0 hm
  have hle : o ≤ s.data.length := by
    by_contra hlt
    rw [arrayWrite, if_pos (.inl (by omega))] at hc
    exact absurd hc (by simp)
  have hok := arrayWrite_of_le hle (hmax.trans (by decide))
  have hnewsize : (arrayWrite s.data o src).2.length ≤ SMALLFILE * BSIZE := by
    rw [hok]
    exact (length_writeBytes hle).trans_le (max_le hJ.hist.size hmax)
  have hsmall : SMALLFILE * BSIZE < 2 ^ 31 := by decide
  have hcur : (mode t).cur = some (c, b) := by
    rw [hm]
    rfl
  refine ⟨trivial, .held c (b ++ src) o src.length, hJ.keep hm rfl hoff ?_ ?_, ?_, rfl⟩
  · change o + src.length = s0.off + total (s.events ++ [.moved c o src])
    rw [total_append, total_moved]
    omega
  · rw [cur_update]
    have ho : s0.off + total s.events = o := by omega
    have hmove := hJ.hist.move (t := t) (x := src) hcur
      hnewsize (by omega)
      (fun o' y hy hold => by
        rw [hok]
        exact (take_drop_writeBytes_below hle (ho ▸ hy)).trans hold) fun n' src' hop' => ?_
    · rwa [ho] at hmove
    · rw [hop] at hop'
      obtain ⟨-, rfl⟩ := Op.write.inj hop'
      rw [hok, ho]
      exact ⟨take_drop_writeBytes_self hle, rest, by rw [append_assoc]; exact hfull⟩
  · rw [hok]

/-- What `readi` returns. -/
lemma arrayRead_ok (data : List Byte) {off n : Nat} (hoff : off < 2 ^ 32) (hn : n < 2 ^ 32) :
    arrayRead data off n = (-1, []) ∨ (arrayRead data off n).1 = (arrayRead data off n).2.length ∧
      off + (arrayRead data off n).2.length ≤ data.length := by
  unfold arrayRead
  cases hlen : readiLen data.length off n with
  | none => exact .inl rfl
  | some m =>
    have hm := (readiLen_le hlen hoff hn).2
    have hl : ((data.drop off).take m).length = m := by
      rw [length_take, length_drop]
      omega
    exact .inr ⟨by rw [hl], by rw [hl]; exact hm⟩

/-- `readi` at the offset, by a call that has moved nothing. -/
lemma safe_readi {k : Nat} (hop : c.op = .read n) (hk : k < 2 ^ 32) :
    (readi c o k).safe (outline s0) t (.held c [] o 0)
      fun r m => ∃ x, m = .held c x o x.length ∧ (r.1 = x.length ∨ x = [] ∧ r.1 = -1) := by
  intro s mode hJ hm _ _
  obtain ⟨-, hoff, htotal⟩ := hJ.held t c [] o 0 hm
  have hbound := hJ.hist.bound
  have hsize := hJ.hist.size
  have hsmall : SMALLFILE * BSIZE < 2 ^ 31 := by decide
  have hcur : (mode t).cur = some (c, []) := by
    rw [hm]
    rfl
  have ho : s0.off + total s.events = o := by omega
  have hread := arrayRead_ok s.data (show o < 2 ^ 32 by omega) hk
  have hend : s0.off + total s.events + (arrayRead s.data o k).2.length < 2 ^ 32 := by
    rcases hread with he | ⟨-, hle⟩
    · rw [he]
      exact hbound
    · omega
  refine ⟨trivial, .held c (arrayRead s.data o k).2 o (arrayRead s.data o k).2.length,
    hJ.keep hm rfl hoff ?_ ?_, (arrayRead s.data o k).2, rfl, ?_⟩
  · change o + _ = s0.off + total (s.events ++ [.moved c o _])
    rw [total_append, total_moved]
    omega
  · rw [cur_update]
    have hmove := hJ.hist.move hcur hsize hend (fun _ _ _ hold => hold) fun n' src hop' => by
      rw [hop] at hop'
      cases hop'
    rwa [ho] at hmove
  · rcases hread with he | ⟨hr, -⟩
    · exact .inr ⟨congrArg Prod.snd he, congrArg Prod.fst he⟩
    · exact .inl hr

/-- The loop of `filewrite` writes all that is left. -/
lemma safe_filewriteLoop {full : List Byte} (hop : c.op = .write n full) (fuel : Nat) :
    ∀ {b src : List Byte}, b ++ src = full → src.length ≤ fuel →
      ((fileOps c).filewriteLoop src fuel).safe (outline s0) t (.out c b)
        fun all m => all = true ∧ m = .out c full := by
  induction fuel with
  | zero =>
    intro b src hfull hlen
    obtain rfl := length_eq_zero_iff.mp (Nat.le_zero.mp hlen)
    rw [append_nil] at hfull
    exact ⟨rfl, by rw [hfull]⟩
  | succ fuel ih =>
    intro b src hfull hlen
    unfold FileOps.filewriteLoop
    split_ifs with h0
    · obtain rfl := length_eq_zero_iff.mp h0
      rw [append_nil] at hfull
      exact ⟨rfl, by rw [hfull]⟩
    · have hmax : writeMax = 1536 := rfl
      have hn1 : (src.take (min src.length writeMax)).length = min src.length writeMax := by
        rw [length_take]
        omega
      have hsplit : b ++ (src.take (min src.length writeMax) ++
          src.drop (min src.length writeMax)) = full := by
        rw [take_append_drop]
        exact hfull
      refine safe_bind safe_beginTrans ?_
      rintro _ _ rfl
      refine safe_bind safe_ilock ?_
      rintro _ _ ⟨o, rfl⟩
      refine safe_bind safe_peek_off ?_
      rintro _ _ ⟨rfl, rfl⟩
      refine safe_bind (safe_writei hop hsplit) ?_
      rintro _ _ ⟨rfl, rfl⟩
      refine safe_bind (safe_addOff rfl) ?_
      rintro _ _ ⟨o', rfl⟩
      refine safe_bind safe_iunlock ?_
      rintro _ _ rfl
      refine safe_bind safe_commitTrans ?_
      rintro _ _ rfl
      rw [hn1, if_neg (by omega), if_neg (by simp)]
      refine ih (by rw [append_assoc]; exact hsplit) ?_
      rw [length_drop]
      omega

lemma safe_leave (hr : c.Result s0.writable b r) :
    (leave c r).safe (outline s0) t (.out c b) fun _ m => m = .idle := by
  refine safe_await _ fun _ _ hJ hm _ => hJ.out rfl rfl rfl ?_ ?_
  · rw [total_append, total_returned]
    rfl
  · rw [cur_update]
    exact hJ.hist.leave (by rw [hm]; rfl) hr

lemma safe_enter {op : Op} : (enter op).safe (outline s0) t .idle
    fun c m => c.op = op ∧ m = .out c [] := by
  intro s mode hJ _ _ _
  refine ⟨trivial, .out ⟨s.calls, op⟩ [], hJ.out rfl rfl rfl rfl ?_, rfl, rfl⟩
  rw [cur_update]
  exact hJ.hist.enter op t

lemma safe_filewrite (hop : c.op = .write n src) (hn : src.length = n.toNat) :
    (filewrite c n src).safe (outline s0) t (.out c [])
      fun r m => ∃ b, m = .out c b ∧ c.Result s0.writable b r := by
  refine safe_bind (safe_peek (Q := fun w m => w = s0.writable ∧ m = .out c []) ?_) ?_
  · intro s mode hJ _
    exact ⟨hJ.hist.writable, rfl⟩
  rintro _ _ ⟨rfl, rfl⟩
  cases hw : s0.writable with
  | false =>
    refine ⟨[], rfl, ?_⟩
    rw [Call.Result, hop]
    simp
  | true =>
    refine safe_bind (safe_filewriteLoop hop src.length (nil_append src) le_rfl) ?_
    rintro _ _ ⟨rfl, rfl⟩
    refine ⟨src, rfl, ?_⟩
    rw [Call.Result, hop]
    by_cases h0 : 0 ≤ n
    · simp [h0]
    · have hnil : src = [] := length_eq_zero_iff.mp (by omega)
      simp [h0, hnil]

lemma safe_fileread (hop : c.op = .read n) :
    (fileread c n).safe (outline s0) t (.out c [])
      fun r m => ∃ b, m = .out c b ∧ c.Result s0.writable b r.1 := by
  refine safe_bind (safe_peek (Q := fun _ m => m = .out c []) fun _ _ _ _ => rfl) ?_
  rintro readable _ rfl
  have hresult : ∀ {x : List Byte} {r : Int}, (r = x.length ∨ x = [] ∧ r = -1) →
      c.Result s0.writable x r := by
    intro x r h
    rw [Call.Result, hop]
    exact h
  cases readable with
  | false => exact ⟨[], rfl, hresult (.inr ⟨rfl, rfl⟩)⟩
  | true =>
    refine safe_bind safe_ilock ?_
    rintro _ _ ⟨o, rfl⟩
    refine safe_bind safe_peek_off ?_
    rintro _ _ ⟨rfl, rfl⟩
    refine safe_bind (safe_readi hop (BitVec.isLt _)) ?_
    rintro ⟨r, bytes⟩ _ ⟨x, rfl, hx⟩
    refine safe_bind (Q := fun _ m => ∃ o', m = .held c x o' 0) ?_ ?_
    · rcases hx with hr | ⟨rfl, rfl⟩
      · exact safe_addOff hr
      · exact ⟨_, rfl⟩
    rintro _ _ ⟨o', rfl⟩
    refine safe_bind safe_iunlock ?_
    rintro _ _ rfl
    exact ⟨x, rfl, hresult hx⟩

lemma safe_write (hn : src.length = n.toNat) :
    (write n src).safe (outline s0) t .idle fun _ m => m = .idle := by
  refine safe_bind safe_enter ?_
  rintro c _ ⟨hop, rfl⟩
  refine safe_bind (safe_filewrite hop hn) ?_
  rintro r _ ⟨b, rfl, hr⟩
  exact safe_leave hr

lemma safe_read : (read n).safe (outline s0) t .idle fun _ m => m = .idle := by
  refine safe_bind safe_enter ?_
  rintro c _ ⟨hop, rfl⟩
  refine safe_bind (safe_fileread hop) ?_
  rintro ⟨r, bytes⟩ _ ⟨b, rfl, hr⟩
  exact safe_leave hr

end Safe

/-! ### Every run -/

/-- Nothing that goes through the shared offset is lost. -/
structure Kept (s0 s : Shared) : Prop where
  /-- Each range that is moved begins where the one before it ends. -/
  consecutive : ∀ l1 l2 c o b, s.events = l1 ++ .moved c o b :: l2 → o = s0.off + total l1
  /-- The bytes written are in the file. -/
  stored : ∀ c o b, .moved c o b ∈ s.events → ∀ n src, c.op = .write n src →
    (s.data.drop o).take b.length = b
  /-- The chunks of a call are written in order. -/
  order : ∀ c n src, c.op = .write n src → movedBy c s.events <+: src
  /-- Between the critical sections the offset counts all bytes that have been moved. -/
  off : s.locked = false → s.off = s0.off + total s.events
  returned : ∀ c r, .returned c r ∈ s.events → c.Result s0.writable (movedBy c s.events) r

lemma Inv.kept {s0 s : Shared} {mode : Nat → Mode} (h : Inv s0 s mode) : Kept s0 s :=
  ⟨h.hist.consecutive, h.hist.stored, h.hist.order, h.free, h.hist.returned⟩

variable {readable writable : Bool} {off : Nat} {data : List Byte} {c : Processes}

lemma inv_start (hoff : off < 2 ^ 32) (hdata : data.length ≤ SMALLFILE * BSIZE) :
    Inv (start readable writable off data).state (start readable writable off data).state
      fun _ => .idle := by
  refine ⟨⟨rfl, hdata, hoff, ?_, ?_, ?_, ?_, ?_, ?_, ?_⟩, fun _ => rfl, ?_, ?_⟩
  · intro l1 l2 c o b he
    exact absurd he (by simp [start])
  · intro c o b hb
    exact absurd hb not_mem_nil
  · intro c n src _
    exact nil_prefix
  · intro e he
    exact absurd he not_mem_nil
  · intro t c b ht
    cases ht
  · intro t t' c b b' ht
    cases ht
  · intro c r hr
    exact absurd hr not_mem_nil
  · intro t c b o w ht
    cases ht
  · intro t t' ht
    cases ht

/-- In every interleaving of calls in which no `writei` fails or leaves the first `SMALLFILE` blocks
of the file, the ranges moved through the shared offset follow one another without gap or overlap,
the bytes written stay, each call writes its chunks in order and returns `n` when it has written
them all, and the offset counts the bytes moved. -/
theorem shared_offset_keeps_writes (hoff : off < 2 ^ 32) (hdata : data.length ≤ SMALLFILE * BSIZE)
    (hrun : Threads.Run Calls Succeeds (start readable writable off data) c) :
    Kept (start readable writable off data).state c.state := by
  have hsafe : Threads.Safe (outline (start readable writable off data).state) .idle
      (start readable writable off data) :=
    Threads.safe_of_idle (inv_start hoff hdata) fun _ => rfl
  obtain ⟨mode, hJ, -⟩ := hsafe.run hrun
    (fun t q hq => by
      cases hq with
      | write h => exact safe_write h
      | read n => exact safe_read)
    fun _ _ _ h => h
  exact hJ.kept

/-- No `writei` fails, as a test. -/
def succeeds (_ : Nat) (l : Label) (s : Shared) : Bool :=
  match l with
  | .writei off src => decide (0 ≤ (arrayWrite s.data off src).1 ∧
      off + src.length ≤ SMALLFILE * BSIZE)
  | .tau => true

lemma succeeds_iff (t : Nat) (l : Label) (s : Shared) : succeeds t l s = true ↔ Succeeds t l s := by
  cases l with
  | tau => exact Iff.of_eq (by simp [succeeds, Succeeds])
  | writei off src => exact decide_eq_true_iff

/-- Process 1 writes a byte while process 0 waits for the log, and process 0 then writes two bytes
behind it. -/
theorem shared_offset_keeps_writes_two : ∃ c : Processes,
    c.state.events = [.moved ⟨1, .write 1 [7]⟩ 0 [7], .moved ⟨0, .write 2 [8, 9]⟩ 1 [8, 9],
      .returned ⟨0, .write 2 [8, 9]⟩ 2, .returned ⟨1, .write 1 [7]⟩ 1] ∧
    c.state.data = [7, 8, 9] ∧ Kept (start true true 0 []).state c.state := by
  obtain ⟨c, hc, hevents, hdata⟩ : ∃ c, Threads.exec succeeds
      [.start 0 (write 2 [8, 9]), .acts 0 2, .start 1 (write 1 [7]), .acts 1 10,
        .acts 0 9, .acts 1 1] (start true true 0 []) = some c ∧
      c.state.events = [.moved ⟨1, .write 1 [7]⟩ 0 [7], .moved ⟨0, .write 2 [8, 9]⟩ 1 [8, 9],
        .returned ⟨0, .write 2 [8, 9]⟩ 2, .returned ⟨1, .write 1 [7]⟩ 1] ∧
      c.state.data = [7, 8, 9] := ⟨_, rfl, rfl, rfl⟩
  refine ⟨c, hevents, hdata, shared_offset_keeps_writes (by decide) (by decide)
    (Threads.exec_run hc (fun t l s h => (succeeds_iff t l s).mp h) fun t q h => ?_)⟩
  simp only [mem_cons, reduceCtorEq, false_or, or_false, not_mem_nil,
    Threads.Move.start.injEq] at h
  rcases h with ⟨rfl, rfl⟩ | ⟨rfl, rfl⟩
  · exact .write 0 rfl
  · exact .write 1 rfl

/-- A `filewrite` of a negative `n` returns -1, and a `fileread` at the end of the file 0. -/
theorem call_returns_other_than_n : ∃ c : Processes,
    Threads.Run Calls Succeeds (start true true 0 []) c ∧
    .returned ⟨0, .write (-2) []⟩ (-1) ∈ c.state.events ∧
    .returned ⟨1, .read 1⟩ 0 ∈ c.state.events := by
  obtain ⟨c, hc, hevents⟩ : ∃ c, Threads.exec succeeds
      [.start 0 (write (-2) []), .acts 0 3, .start 1 (read 1), .acts 1 7]
      (start true true 0 []) = some c ∧
      c.state.events = [.returned ⟨0, .write (-2) []⟩ (-1), .moved ⟨1, .read 1⟩ 0 [],
        .returned ⟨1, .read 1⟩ 0] := ⟨_, rfl, rfl⟩
  refine ⟨c, Threads.exec_run hc (fun t l s h => (succeeds_iff t l s).mp h) fun t q h => ?_,
    by simp [hevents], by simp [hevents]⟩
  simp only [mem_cons, reduceCtorEq, false_or, or_false, not_mem_nil,
    Threads.Move.start.injEq] at h
  rcases h with ⟨rfl, rfl⟩ | ⟨rfl, rfl⟩
  · exact .write 0 rfl
  · exact .read 1 1

end SharedFile

end Xv6
