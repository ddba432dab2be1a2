import Xv6.Disk.Bio
import Xv6.Lib.Chain
import Xv6.Lib.Threads

/-!
# The disk driver

`ide.c`: a queue of buffers, the first of which the disk works on, and the interrupt that ends a
request. Processes call `iderw` each on buffers of its own, the controller executes the commands it
is given, and the interrupt handler runs once for each of them, all in any order.

What a thread does to the queue and the controller between `acquire` of `idelock` and the next
`release` or `sleep` is one action. `sleep` gives up `idelock` and marks the process as asleep in
one action too. -/

namespace Xv6.Ide

open Lib Disk

def IDE_CMD_READ : Nat := 0x20

def IDE_CMD_WRITE : Nat := 0x30

/-- The controller: it is ready, waits for the data of a write, executes a command for a sector of a
drive, or has the data of a read. -/
inductive Ctl
  | ready
  | filling (drive sector : Nat)
  | reading (drive sector : Nat)
  | writing (drive sector : Nat) (data : Bytes)
  | full (data : Bytes)

/-- `IDE_BSY`. -/
def Ctl.busy : Ctl → Bool
  | .reading _ _ => true
  | .writing _ _ _ => true
  | _ => false

/-- Who acts: processes, handlers of interrupts, the disk, and other code of the kernel. -/
inductive Tid
  | proc (p : Nat)
  | intr (k : Nat)
  | disk
  | other (k : Nat)
  deriving DecidableEq

/-- A request: the number of the buffer, and the buffer as it is given to `iderw`. -/
structure Request where
  num : Nat
  given : Buf

inductive Panic
  | notBusy
  | nothingToDo
  | noDisk1
  deriving DecidableEq, Repr

/-- The drives and the controller, the variables of `ide.c` and the buffers; `asleep` has the buffer
that a process sleeps on and `owner` the process that has a buffer to itself. Then what is told of
the run: the requests in the order in which they were queued, started and finished, how many the
disk has executed, the buffers as they were when their requests had finished, the number of the last
request of each process, and the calls that have returned, with the number of the request, the
request and the buffer. -/
structure State where
  drive : Nat → Nat → Bytes
  reg : Nat → Nat := fun _ => 0
  ctl : Ctl := .ready
  irq : Bool := false
  havedisk1 : Bool
  idelock : Option Tid := none
  idequeue : Option Nat := none
  qnext : Nat → Option Nat := fun _ => none
  buf : Nat → Buf
  asleep : Nat → Option Nat := fun _ => none
  owner : Nat → Option Nat := fun _ => none
  queued : List Request := []
  started : List Request := []
  executed : Nat := 0
  finished : List Request := []
  results : List Buf := []
  ticket : Nat → Nat := fun _ => 0
  returned : List (Nat × Request × Buf) := []

abbrev I := Prog Unit State Panic

namespace State

/-! ### The controller -/

/-- `outb` to a register. -/
def outb (s : State) (port v : Nat) : State := { s with reg := upd s.reg port (v % 2 ^ 8) }

/-- `outb(0x1f7, cmd)`. The command is for the drive and the sector in the registers. -/
def command (s : State) (cmd : Nat) : State :=
  let drive := s.reg 0x1f6 / 16 % 2
  let sector := s.reg 0x1f3 + s.reg 0x1f4 * 2 ^ 8 + s.reg 0x1f5 * 2 ^ 16 +
    s.reg 0x1f6 % 16 * 2 ^ 24
  { s with ctl := if cmd = IDE_CMD_WRITE then .filling drive sector else .reading drive sector }

/-- `outsl(0x1f0, data, 512/4)`. -/
def outsl (s : State) (data : Bytes) : State :=
  match s.ctl with
  | .filling drive sector => { s with ctl := .writing drive sector data }
  | _ => s

/-- `insl(0x1f0, b->data, 512/4)`. -/
def insl (s : State) (b : Nat) : State :=
  match s.ctl with
  | .full data => { s with ctl := .ready, buf := upd s.buf b { s.buf b with data := data } }
  | _ => s

/-- The disk executes the command, and asks for an interrupt if these are not disabled. -/
def execute (s : State) : State :=
  match s.ctl with
  | .reading drive sector =>
    { s with
      ctl := .full (s.drive drive sector)
      irq := s.irq || s.reg 0x3f6 / 2 % 2 == 0
      executed := s.executed + 1 }
  | .writing drive sector data =>
    { s with
      ctl := .ready
      drive := upd s.drive drive (upd (s.drive drive) sector data)
      irq := s.irq || s.reg 0x3f6 / 2 % 2 == 0
      executed := s.executed + 1 }
  | _ => s

/-! ### The driver -/

/-- Start the request for a buffer. -/
def idestart (s : State) (b : Nat) : State :=
  let v := s.buf b
  let s := { s with started := s.started ++ [Request.mk b v] }
  let s := s.outb 0x3f6 0
  let s := s.outb 0x1f2 1
  let s := s.outb 0x1f3 (v.sector % 2 ^ 8)
  let s := s.outb 0x1f4 (v.sector / 2 ^ 8 % 2 ^ 8)
  let s := s.outb 0x1f5 (v.sector / 2 ^ 16 % 2 ^ 8)
  let s := s.outb 0x1f6 (0xe0 + v.dev % 2 * 2 ^ 4 + v.sector / 2 ^ 24 % 2 ^ 4)
  if v.dirty then (s.command IDE_CMD_WRITE).outsl v.data else s.command IDE_CMD_READ

/-- The pointer at a place: `idequeue`, or `qnext` of a buffer. -/
def deref (s : State) : Option Nat → Option Nat
  | none => s.idequeue
  | some b => s.qnext b

def setPlace (s : State) (pp v : Option Nat) : State :=
  match pp with
  | none => { s with idequeue := v }
  | some b => { s with qnext := upd s.qnext b v }

/-- The loop that goes to the end of the queue. -/
def queueEnd (s : State) : Nat → Option Nat → Option Nat
  | 0, pp => pp
  | k + 1, pp =>
    match s.deref pp with
    | none => pp
    | some b => queueEnd s k (some b)

/-- Append a buffer to the queue. No buffer is in it twice, so that `NBUF` turns are enough. -/
def append (s : State) (b : Nat) : State :=
  let s := { s with qnext := upd s.qnext b none }
  s.setPlace (s.queueEnd NBUF none) (some b)

/-- The first part of `iderw` under `idelock`: the buffer is queued, and the disk started if there
was no request. -/
def submit (s : State) (p b : Nat) : State :=
  let s := { s with
    ticket := upd s.ticket p s.queued.length
    queued := s.queued ++ [Request.mk b (s.buf b)] }
  let s := s.append b
  if s.idequeue = some b then s.idestart b else s

def wakeup (s : State) (b : Nat) : State :=
  { s with asleep := fun p => if s.asleep p = some b then none else s.asleep p }

/-- The request of a buffer that has been taken from the queue is finished: the data are read if
needed, the flags are set and the process is woken up. -/
def finish (s : State) (b : Nat) : State :=
  let r : Request := ⟨b, s.buf b⟩
  let s := if (s.buf b).dirty then s else s.insl b
  let s := { s with buf := upd s.buf b { s.buf b with valid := true, dirty := false } }
  let s := s.wakeup b
  { s with finished := s.finished ++ [r], results := s.results ++ [s.buf b] }

/-- What `ideintr` does under `idelock`. -/
def service (s : State) : State :=
  match s.idequeue with
  | none => s
  | some b =>
    let s := { s with idequeue := s.qnext b }
    let s := s.finish b
    match s.idequeue with
    | none => s
    | some b => s.idestart b

end State

/-! ### Threads -/

def acquire (t : Tid) : I Unit :=
  .act () (fun s => s.idelock.isNone) (fun s => { s with idelock := some t }) fun _ => .ret ()

def release : I Unit := .modify () fun s => { s with idelock := none }

/-- Wait for the controller to become ready, and act. -/
def idewait (u : State → State) : I Unit := .act () (fun s => !s.ctl.busy) u fun _ => .ret ()

/-- Interrupt handler. -/
def ideintr (t : Tid) : I Unit := do
  .act () State.irq (fun s => { s with irq := false }) fun _ => .ret ()
  acquire t
  idewait State.service
  release

/-- `sleep(b, &idelock)`. -/
def sleep (p b : Nat) : I Unit := do
  .modify () fun s => { s with asleep := upd s.asleep p (some b), idelock := none }
  .act () (fun s => (s.asleep p).isNone) id fun _ => .ret ()
  acquire (.proc p)

/-- A process that does not go on within the turns considered. -/
def unfinished : I Unit := .act () (fun _ => false) id fun _ => .ret ()

/-- Wait for request to finish. -/
def await (p b : Nat) : Nat → I Unit
  | 0 => unfinished
  | turns + 1 => do
    let v ← .get () fun s => s.buf b
    if v.valid && !v.dirty then pure ()
    else
      sleep p b
      await p b turns

/-- Sync a buffer with the disk. The disk is started only if the controller is not busy. -/
def iderw (p b turns : Nat) : I Unit := do
  let v ← .get () fun s => s.buf b
  let havedisk1 ← .get () State.havedisk1
  if !v.busy then .panic .notBusy
  else if v.valid && !v.dirty then .panic .nothingToDo
  else if v.dev ≠ 0 && !havedisk1 then .panic .noDisk1
  else
    acquire (.proc p)
    .act () (fun s => s.idequeue.isSome || !s.ctl.busy) (fun s => s.submit p b) fun _ => .ret ()
    await p b turns
    release

/-- A process makes a buffer busy that no other process has, gives it any contents, and calls
`iderw`. -/
def call (p b : Nat) (v : Buf) (turns : Nat) : I Unit := do
  .act () (fun s => s.owner b = none || s.owner b = some p)
    (fun s => { s with
      owner := upd s.owner b (some p)
      buf := upd s.buf b { v with busy := true } })
    fun _ => .ret ()
  iderw p b turns
  .modify () fun s =>
    { s with returned := s.returned ++ [(s.ticket p, ⟨b, { v with busy := true }⟩, s.buf b)] }

/-- A process gives a buffer up. -/
def giveUp (p b : Nat) : I Unit :=
  .act () (fun s => s.owner b = some p)
    (fun s => { s with
      owner := upd s.owner b none
      buf := upd s.buf b { s.buf b with busy := false } })
    fun _ => .ret ()

/-- The disk executes a command. -/
def execute : I Unit := .act () (fun s => s.ctl.busy) State.execute fun _ => .ret ()

/-- A process is woken up for another reason, as by `kill`. -/
def rouse (p : Nat) : I Unit := .modify () fun s => { s with asleep := upd s.asleep p none }

inductive Calls : Tid → I Unit → Prop
  | iderw {p b : Nat} (v : Buf) (turns : Nat) (h : b < NBUF) : Calls (.proc p) (call p b v turns)
  | giveUp (p b : Nat) : Calls (.proc p) (giveUp p b)
  | ideintr (k : Nat) : Calls (.intr k) (ideintr (.intr k))
  | execute : Calls .disk execute
  | rouse (k p : Nat) : Calls (.other k) (rouse p)

/-- The threads before the first call. -/
def boot (drive : Nat → Nat → Bytes) (havedisk1 : Bool) (buf : Nat → Buf) :
    Threads Tid Unit State Panic :=
  ⟨{ drive := drive, havedisk1 := havedisk1, buf := buf }, fun _ => .ret ()⟩

end Xv6.Ide
