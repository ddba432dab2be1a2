import Xv6.Lib.Prog
import Xv6.Fs.Log

/-!
# The buffer cache: `bio.c` over the disk of `memide.c`

The state has the sectors of the disk, the buffers of `bcache.buf` and the list through their
`prev` and `next` pointers. A sector write is one action, so a crash falls between two of them.
-/

namespace Xv6.Disk

open Lib Prog

/-- The panics of `bio.c`, `memide.c` and `log.c`. -/
inductive Panic
  | bgetNoBuffers
  | bwrite
  | brelse
  | iderwNotBusy
  | iderwNothingToDo
  | iderwNotDisk1
  | iderwOutOfRange
  | tooBigATransaction
  | writeOutsideOfTrans
  deriving DecidableEq, Repr

/-- `struct buf`, with its flags as fields. -/
structure Buf where
  dev : Nat
  sector : Nat
  busy : Bool
  valid : Bool
  dirty : Bool
  data : Bytes

/-- The disk, the buffer cache and the log. `mru` lists `bcache.buf` from `head.next` on. -/
structure State where
  disksize : Nat
  disk : Nat → Bytes
  buf : Nat → Buf
  mru : List Nat
  log : Log

/-- Kernel code at the level of buffers. -/
abbrev D := Prog Unit State Panic

def read {α : Type} (f : State → α) : D α := .get () f

def write (u : State → State) : D Unit := .modify () u

def State.setBuf (s : State) (i : Nat) (f : Buf → Buf) : State :=
  { s with buf := upd s.buf i (f (s.buf i)) }

@[simp] lemma State.setBuf_same {s : State} {i : Nat} (f : Buf → Buf) :
    (s.setBuf i f).buf i = f (s.buf i) := by
  simp [setBuf]

lemma State.setBuf_ne {s : State} {i j : Nat} (f : Buf → Buf) (h : j ≠ i) :
    (s.setBuf i f).buf j = s.buf j := by
  simp [setBuf, upd_ne h]

/-- `binit`: the buffers hold no sector, and the last one is first in the list. -/
def State.binit (s : State) : State :=
  { s with
    buf := fun _ => ⟨2 ^ 32 - 1, 0, false, false, false, fun _ => 0⟩
    mru := (List.range NBUF).reverse }

/-- The buffer that `bget` finds for a sector. -/
def State.cached (s : State) (dev sector : Nat) : Option Nat :=
  s.mru.find? fun i => decide ((s.buf i).dev = dev ∧ (s.buf i).sector = sector)

/-- The buffer that `bget` recycles: the least recently used one that is neither busy nor dirty. -/
def State.recyclable (s : State) : Option Nat :=
  s.mru.reverse.find? fun i => !(s.buf i).busy && !(s.buf i).dirty

/-- Look through the buffer cache for a sector; if it is not there, recycle a buffer. -/
def bget (dev sector : Nat) : D Nat :=
  .act ()
    (fun s => match s.cached dev sector with
      | some i => !(s.buf i).busy
      | none => true)
    (fun s => match s.cached dev sector with
      | some i => s.setBuf i fun b => { b with busy := true }
      | none => match s.recyclable with
        | some i => s.setBuf i fun b =>
            { b with dev := dev, sector := sector, busy := true, valid := false, dirty := false }
        | none => s)
    fun s => match s.cached dev sector with
      | some i => .ret i
      | none => match s.recyclable with
        | some i => .ret i
        | none => .panic .bgetNoBuffers

/-- Sync a buffer with the disk. -/
def iderw (i : Nat) : D Unit := do
  let b ← read fun s => s.buf i
  let disksize ← read State.disksize
  if !b.busy then .panic .iderwNotBusy
  else if b.valid && !b.dirty then .panic .iderwNothingToDo
  else if b.dev ≠ ROOTDEV then .panic .iderwNotDisk1
  else if disksize ≤ b.sector then .panic .iderwOutOfRange
  else if b.dirty then
    write fun s =>
      { s.setBuf i fun b => { b with dirty := false, valid := true } with
        disk := upd s.disk b.sector b.data }
  else
    write fun s => s.setBuf i fun b => { b with data := s.disk b.sector, valid := true }

/-- Return a busy buffer with the contents of the sector. -/
def bread (dev sector : Nat) : D Nat := do
  let i ← bget dev sector
  let b ← read fun s => s.buf i
  if b.valid then pure i
  else
    iderw i
    pure i

/-- Write a buffer's contents to disk. -/
def bwrite (i : Nat) : D Unit := do
  let b ← read fun s => s.buf i
  if !b.busy then .panic .bwrite
  else
    write fun s => s.setBuf i fun b => { b with dirty := true }
    iderw i

/-- Release a buffer and move it to the head of the list. -/
def brelse (i : Nat) : D Unit := do
  let b ← read fun s => s.buf i
  if !b.busy then .panic .brelse
  else
    write fun s =>
      { s.setBuf i fun b => { b with busy := false } with mru := i :: s.mru.erase i }

end Xv6.Disk
