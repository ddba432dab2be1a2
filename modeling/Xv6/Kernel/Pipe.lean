import Xv6.Kernel.SleepWakeup

/-!
# Pipes

The ring buffer of `pipe.c` and the calls of its readers and writers, as threads on the machine of
`proc.c`. What a run tells of the pipe is kept with it: the bytes stored and taken so far, and what
the processes that called `pipewrite` and `piperead` have got as results.
-/

namespace Xv6.Kernel

open Lib Prog Monitor

/-- The size of the buffer. -/
def PIPESIZE : Nat := 512

/-- `struct pipe`. The counters are 32-bit numbers. -/
structure Pipe where
  data : Nat → UInt8 := fun _ => 0
  nread : Nat := 0
  nwrite : Nat := 0
  readopen : Bool := true
  writeopen : Bool := true

namespace Pipe

/-- `p->nwrite == p->nread + PIPESIZE`. -/
def full (q : Pipe) : Bool := q.nwrite == (q.nread + PIPESIZE) % 2 ^ 32

/-- `p->nread == p->nwrite`. -/
def empty (q : Pipe) : Bool := q.nread == q.nwrite

/-- `p->data[p->nwrite++ % PIPESIZE] = b`. -/
def put (q : Pipe) (b : UInt8) : Pipe :=
  { q with data := upd q.data (q.nwrite % PIPESIZE) b, nwrite := (q.nwrite + 1) % 2 ^ 32 }

/-- The byte `p->data[p->nread % PIPESIZE]`. -/
def next (q : Pipe) : UInt8 := q.data (q.nread % PIPESIZE)

/-- `p->nread++`. -/
def advance (q : Pipe) : Pipe := { q with nread := (q.nread + 1) % 2 ^ 32 }

/-- Whether the write end, or the read end, is open. -/
def isOpen (q : Pipe) (writable : Bool) : Bool := if writable then q.writeopen else q.readopen

/-- The store of `pipeclose`. -/
def close (q : Pipe) (writable : Bool) : Pipe :=
  if writable then { q with writeopen := false } else { q with readopen := false }

end Pipe

/-- A call of `pipewrite` that has returned: its argument `n` and result, the bytes it was given and
those it stored. -/
structure Written where
  n : Int
  result : Int
  given : List UInt8
  stored : List UInt8

/-- What `p->lock` protects, with the bytes that were stored so far, those that were taken, each
with the process that took it, and whether bytes were stored since readers were last woken up. -/
structure PipeCore where
  pipe : Pipe := {}
  sent : List UInt8 := []
  taken : List (Nat × UInt8) := []
  owed : Bool := false

/-- A pipe and what is told of it: the processes that have the write end or the read end open, the
bytes that the last `pipewrite` of a process has stored, the calls of `pipewrite` that have
returned, and the bytes that a process has got from `piperead`. -/
structure PipeData where
  core : PipeCore := {}
  holds : Bool → Nat → Bool
  wrote : Nat → List UInt8 := fun _ => []
  returned : List Written := []
  handed : Nat → List UInt8 := fun _ => []

/-- The lock of the pipe. -/
def pipeLock : Lk := .other 0

/-- `&p->nread`. -/
def nreadChan : Chan := .addr 0

/-- `&p->nwrite`. -/
def nwriteChan : Chan := .addr 1

namespace PipeData

/-- A process stores a byte. -/
def put (d : PipeData) (p : Nat) (b : UInt8) : PipeData :=
  { d with
    core := { d.core with pipe := d.core.pipe.put b, sent := d.core.sent ++ [b], owed := true }
    wrote := upd d.wrote p (d.wrote p ++ [b]) }

/-- A reader takes a byte. -/
def take (d : PipeData) (p : Nat) : PipeData :=
  { d with core := { d.core with
      pipe := d.core.pipe.advance
      taken := d.core.taken ++ [(p, d.core.pipe.next)] } }

/-- The bytes that process `p` has taken. -/
def takenBy (d : PipeData) (p : Nat) : List UInt8 :=
  (d.core.taken.filter fun x => x.1 == p).map Prod.snd

/-- Readers have been woken up. -/
def paid (d : PipeData) : PipeData := { d with core := { d.core with owed := false } }

/-- A `pipewrite` of process `p` has returned. -/
def noteWrite (d : PipeData) (p : Nat) (n result : Int) (given : List UInt8) : PipeData :=
  { d with returned := ⟨n, result, given, d.wrote p⟩ :: d.returned }

/-- A `piperead` of process `p` has returned, with `result` bytes at the start of the buffer. -/
def noteRead (d : PipeData) (p : Nat) (result : Int) (bytes : List UInt8) : PipeData :=
  { d with handed := upd d.handed p (d.handed p ++ bytes.take result.toNat) }

end PipeData

/-! ### The calls -/

section Calls

/-- The system call finds the end of the pipe among the open files of the process. -/
def beginCall (p : Nat) (writable : Bool) : Code PipeData Bool :=
  access (.proc p) .tau (fun s => { s.data with wrote := upd s.data.wrote p [] })
    fun s => s.data.holds writable p

/-- The loops of `pipewrite` from byte `i` on; at most `turns` turns are considered. -/
def pipewriteLoop (p : Nat) (addr : Nat → UInt8) (n : Int) (delay : Nat → Nat) (i : Nat) :
    Nat → Code PipeData Int
  | 0 => unfinished
  | turns + 1 => do
    if n ≤ i then
      wakeupNote (.proc p) nreadChan PipeData.paid
      release (.proc p) pipeLock
      pure n
    else
      let full ← look (.proc p) fun s => s.data.core.pipe.full
      if full then
        let stop ← access (.proc p) .giveUp (fun s => s.data)
          fun s => !s.data.core.pipe.readopen || (s.proc p).killed
        if stop then
          release (.proc p) pipeLock
          pure (-1)
        else
          wakeupNote (.proc p) nreadChan PipeData.paid
          sleep p nwriteChan pipeLock (delay turns)
          pipewriteLoop p addr n delay i turns
      else
        access (.proc p) .tau (fun s => s.data.put p (addr i)) fun _ => ()
        pipewriteLoop p addr n delay (i + 1) turns

/-- `pipewrite` by process `p`. -/
def pipewrite (p : Nat) (addr : Nat → UInt8) (n : Int) (delay : Nat → Nat) (turns : Nat) :
    Code PipeData Int := do
  let found ← beginCall p true
  if found then
    acquire (.proc p) pipeLock
    pipewriteLoop p addr n delay 0 turns
  else pure (-1)

/-- The first loop of `piperead`: whether it ends with the lock held and bytes to read, or no
writers. -/
def pipereadAwait (p : Nat) (delay : Nat → Nat) : Nat → Code PipeData Bool
  | 0 => unfinished
  | turns + 1 => do
    let wait ← look (.proc p) fun s => s.data.core.pipe.empty && s.data.core.pipe.writeopen
    if wait then
      let killed ← look (.proc p) fun s => (s.proc p).killed
      if killed then
        release (.proc p) pipeLock
        pure false
      else
        sleep p nreadChan pipeLock (delay turns)
        pipereadAwait p delay turns
    else pure true

/-- The second loop of `piperead`, which copies `n` bytes at most. -/
def pipereadCopy (p : Nat) : Nat → Code PipeData (List UInt8)
  | 0 => pure []
  | n + 1 => do
    let empty ← look (.proc p) fun s => s.data.core.pipe.empty
    if empty then pure []
    else
      let b ← access (.proc p) .tau (fun s => s.data.take p) fun s => s.data.core.pipe.next
      let bs ← pipereadCopy p n
      pure (b :: bs)

/-- `piperead` by process `p`: its result and the bytes it stores. -/
def piperead (p : Nat) (n : Int) (delay : Nat → Nat) (turns : Nat) :
    Code PipeData (Int × List UInt8) := do
  let found ← beginCall p false
  if found then
    acquire (.proc p) pipeLock
    let go ← pipereadAwait p delay turns
    if go then
      let bs ← pipereadCopy p n.toNat
      wakeup (.proc p) nwriteChan
      release (.proc p) pipeLock
      pure (bs.length, bs)
    else pure (-1, [])
  else pure (-1, [])

/-- `pipeclose`. The page is given back when both ends are closed; nobody uses it any more. -/
def pipeclose (p : Nat) (writable : Bool) : Code PipeData Unit := do
  acquire (.proc p) pipeLock
  access (.proc p) .tau (fun s =>
    { s.data with core := { s.data.core with pipe := s.data.core.pipe.close writable } })
    fun _ => ()
  wakeup (.proc p) (if writable then nreadChan else nwriteChan)
  release (.proc p) pipeLock

/-- A process closes its last descriptor of an end. `fileclose` calls `pipeclose` if no other
process has the end open. -/
def fileclose (p : Nat) (writable : Bool) : Code PipeData Unit := do
  let last ← access (.proc p) .tau
    (fun s => { s.data with
      holds := Function.update s.data.holds writable (upd (s.data.holds writable) p false) })
    fun s => s.data.holds writable p &&
      (List.range s.nproc).all fun q => q == p || !s.data.holds writable q
  if last then pipeclose p writable

/-- A process that has an end open shares it with process `q`, as `fork` does with `filedup`. -/
def filedup (p q : Nat) (writable : Bool) : Code PipeData Unit :=
  access (.proc p) .tau
    (fun s => if s.data.holds writable p && decide (q < s.nproc) then
        { s.data with
          holds := Function.update s.data.holds writable (upd (s.data.holds writable) q true) }
      else s.data)
    fun _ => ()

end Calls

/-- The channels of other code. -/
def NotPipe (chan : Chan) : Prop := chan ≠ nreadChan ∧ chan ≠ nwriteChan

/-- Process `p` calls `pipewrite` and tells what it returns. -/
def callWrite (p : Nat) (addr : Nat → UInt8) (n : Int) (delay : Nat → Nat) (turns : Nat) :
    Code PipeData Unit := do
  let r ← pipewrite p addr n delay turns
  access (.proc p) .tau (fun s => s.data.noteWrite p n r ((List.range n.toNat).map addr)) fun _ =>
    ()

/-- Process `p` calls `piperead` and tells what it returns. -/
def callRead (p : Nat) (n : Int) (delay : Nat → Nat) (turns : Nat) : Code PipeData Unit := do
  let (r, bytes) ← piperead p n delay turns
  access (.proc p) .tau (fun s => s.data.noteRead p r bytes) fun _ => ()

/-- What threads may do: use the pipe, or anything else but sleep on its channels. -/
inductive PipeCalls (n : Nat) : Tid → Code PipeData Unit → Prop
  | write (p : Nat) (addr : Nat → UInt8) (k : Int) (delay : Nat → Nat) (turns : Nat) :
    PipeCalls n (.proc p) (callWrite p addr k delay turns)
  | read (p : Nat) (k : Int) (delay : Nat → Nat) (turns : Nat) :
    PipeCalls n (.proc p) (callRead p k delay turns)
  | close (p : Nat) (writable : Bool) : PipeCalls n (.proc p) (fileclose p writable)
  | dup (p q : Nat) (writable : Bool) : PipeCalls n (.proc p) (filedup p q writable)
  | other {t : Tid} {q : Code PipeData Unit} (h : OwnCalls NotPipe n t q) : PipeCalls n t q

/-- After `pipealloc` by process `p`. -/
def pipeStart (n ncpu p : Nat) : Threads Tid Label (Machine PipeData) Panic :=
  start n ncpu { holds := fun _ q => q == p }

end Xv6.Kernel
