import Xv6.Lib.Threads
import Xv6.Lib.Bytes

/-!
# Processes, CPUs and spin locks

The kernel state that `proc.c` works on, and its code as threads: one for the kernel code of each
process and one for the scheduler of each CPU. A thread acts only while a CPU executes on its stack.
Between `swtch` and the moment when it is switched to again, a thread is stopped, and `ptable.lock`
passes with the CPU from one thread to the other.

Every access to the table outside `ptable.lock` is an action of its own. A scan of the table for
fields that change only under the lock is one action.
-/

namespace Xv6.Kernel

open Lib

/-- `enum procstate`. -/
inductive ProcState
  | unused
  | embryo
  | sleeping
  | runnable
  | running
  | zombie
  deriving DecidableEq, Repr

/-- What a process sleeps on: an address of the kernel; those of table entries are apart. -/
inductive Chan
  | null
  | proc (p : Nat)
  | addr (a : Nat)
  deriving DecidableEq, Repr

/-- The spin locks. -/
inductive Lk
  | ptable
  | other (n : Nat)
  deriving DecidableEq, Repr

/-- `struct proc`. `kstack` says that it has a kernel stack, and `forkret` that its saved context is
the one `allocproc` made. -/
structure Pcb where
  state : ProcState := .unused
  pid : Int := 0
  parent : Option Nat := none
  chan : Chan := .null
  killed : Bool := false
  kstack : Bool := false
  forkret : Bool := false
  retime : Int := 0
  rutime : Int := 0
  stime : Int := 0
  deriving DecidableEq, Repr

/-- The kernel stacks code can run on: that of a process, or that of a CPU's scheduler. -/
inductive Tid
  | proc (p : Nat)
  | cpu (c : Nat)
  deriving DecidableEq, Repr

/-- What an observer is told: new processes with their entries, the pid that `fork` has read, pids
of zombies that a parent has found, `wait` that found that it fails, what a process found that
called `kill`, and traps. Then what these calls have returned to the process. -/
inductive Event
  | created (p : Nat) (pid : Int)
  | forked (p : Nat) (pid : Int)
  | waited (parent : Nat) (pid : Int)
  | waitFailed (p : Nat)
  | kill (p : Nat) (pid r : Int)
  | trapped (pid : Int)
  | forkReturned (p : Nat) (r : Int)
  | waitReturned (p : Nat) (r : Int)
  | killReturned (p : Nat) (pid r : Int)
  deriving DecidableEq, Repr

/-- The kernel state. `lock` is the CPU that holds a lock, `on` the process on whose kernel stack a
CPU executes, if it is not on that of its scheduler. `data` is what other code keeps. -/
structure Machine (X : Type) where
  nproc : Nat
  ncpu : Nat
  proc : Nat → Pcb
  nextpid : Int
  lock : Lk → Option Nat
  ncli : Nat → Nat
  on : Nat → Option Nat
  data : X
  log : List Event

/-- The panics of `proc.c` and `spinlock.c`. -/
inductive Panic
  | acquire
  | release
  | schedPtableLock
  | schedLocks
  | schedRunning
  | initExiting
  deriving DecidableEq, Repr

/-- The actions that conditions speak of. -/
inductive Label
  | tau
  | alloc
  | kill (pid : Int)
  | forkFails (np : Nat)
  | giveUp
  deriving DecidableEq, Repr

/-- Kernel code. -/
abbrev Code (X : Type) := Prog Label (Machine X) Panic

/-- `initproc`, the first entry of the table. -/
def initproc : Nat := 0

namespace Machine

variable {X : Type}

/-- The thread whose stack CPU `c` executes on. -/
def cur (s : Machine X) (c : Nat) : Tid :=
  match s.on c with
  | some p => .proc p
  | none => .cpu c

/-- The CPU that executes thread `t`. -/
def cpu (s : Machine X) (t : Tid) : Option Nat :=
  (List.range s.ncpu).find? fun c => s.cur c == t

/-- The thread will start in `forkret` when it is switched to. -/
def fresh (s : Machine X) : Tid → Bool
  | .proc p => (s.proc p).forkret
  | .cpu _ => false

/-- Thread `t` is executed by a CPU. -/
def runs (s : Machine X) (t : Tid) : Bool := (s.cpu t).isSome && !s.fresh t

def setProc (s : Machine X) (p : Nat) (f : Pcb → Pcb) : Machine X :=
  { s with proc := upd s.proc p (f (s.proc p)) }

/-- `holding`, for the CPU that executes `t`. -/
def holding (s : Machine X) (t : Tid) (lk : Lk) : Bool :=
  (s.cpu t).isSome && s.lock lk == s.cpu t

/-- The lock goes to the CPU that executes `t`; `pushcli`. -/
def take (s : Machine X) (t : Tid) (lk : Lk) : Machine X :=
  { s with
    lock := Function.update s.lock lk (s.cpu t)
    ncli := match s.cpu t with
      | some c => upd s.ncli c (s.ncli c + 1)
      | none => s.ncli }

/-- The lock becomes free; `popcli`. -/
def drop (s : Machine X) (t : Tid) (lk : Lk) : Machine X :=
  { s with
    lock := Function.update s.lock lk none
    ncli := match s.cpu t with
      | some c => upd s.ncli c (s.ncli c - 1)
      | none => s.ncli }

/-- The CPU that executes process `p` goes over to its scheduler. -/
def switchOut (s : Machine X) (p : Nat) : Machine X :=
  { s with on := match s.cpu (.proc p) with
      | some c => upd s.on c none
      | none => s.on }

/-- The tests of `sched`. -/
def schedPanic (s : Machine X) (p : Nat) : Option Panic :=
  if !s.holding (.proc p) .ptable then some .schedPtableLock
  else if ((s.cpu (.proc p)).map s.ncli).getD 0 ≠ 1 then some .schedLocks
  else if (s.proc p).state = .running then some .schedRunning
  else none

/-- `wakeup1`. -/
def wakeup1 (s : Machine X) (chan : Chan) : Machine X :=
  { s with proc := fun p =>
      if (s.proc p).state = .sleeping ∧ (s.proc p).chan = chan then
        { s.proc p with state := .runnable }
      else s.proc p }

end Machine

section Code

variable {X α : Type}

/-- Thread `t` reads the state. -/
def look (t : Tid) (f : Machine X → α) : Code X α :=
  .act .tau (fun s => s.runs t) id fun s => .ret (f s)

/-- Thread `t` changes the state. -/
def store (t : Tid) (l : Label) (u : Machine X → Machine X) : Code X Unit :=
  .act l (fun s => s.runs t) u fun _ => .ret ()

/-- A loop that goes on after the turns that are considered: the thread takes no further action. -/
def unfinished : Code X α := .act .tau (fun _ => false) id fun _ => .panic .acquire

/-! ### Spin locks -/

/-- `acquire`. -/
def acquire (t : Tid) (lk : Lk) : Code X Unit := do
  let held ← look t fun s => s.holding t lk
  if held then .panic .acquire
  else .act .tau (fun s => s.runs t && (s.lock lk).isNone) (fun s => s.take t lk) fun _ => .ret ()

/-- `release`. -/
def release (t : Tid) (lk : Lk) : Code X Unit :=
  .act .tau (fun s => s.runs t) (fun s => if s.holding t lk then s.drop t lk else s)
    fun s => if s.holding t lk then .ret () else .panic .release

/-! ### Switching -/

/-- Enter the scheduler. The next action of the process waits until it is switched to again. -/
def sched (p : Nat) : Code X Unit := do
  let e ← look (.proc p) fun s => s.schedPanic p
  match e with
  | some e => .panic e
  | none => store (.proc p) .tau fun s => s.switchOut p

/-- Give up the CPU for one scheduling round. -/
def yield (p : Nat) : Code X Unit := do
  acquire (.proc p) .ptable
  store (.proc p) .tau fun s => s.setProc p fun q => { q with state := .runnable }
  sched p
  release (.proc p) .ptable

/-- The yields of timer interrupts that come while no lock is held, `n` of them. -/
def interrupts (p : Nat) : Nat → Code X Unit
  | 0 => pure ()
  | n + 1 => do
    yield p
    interrupts p n

/-- A process is switched to for the first time; it still holds `ptable.lock` from the scheduler. -/
def forkret (p : Nat) : Code X Unit :=
  .act .tau (fun s => (s.cpu (.proc p)).isSome && s.fresh (.proc p))
    (fun s => (if s.holding (.proc p) .ptable then s.drop (.proc p) .ptable else s).setProc p
      fun q => { q with forkret := false })
    fun s => if s.holding (.proc p) .ptable then .ret () else .panic .release

/-- The loop of `scheduler` over the entries `i`, `i+1`, …, `n` of them. -/
def schedulerLoop (c i : Nat) : Nat → Code X Unit
  | 0 => pure ()
  | n + 1 => do
    let run ← .act .tau (fun s => s.runs (.cpu c))
      (fun s => if (s.proc i).state = .runnable then
          s.setProc i fun q => { q with state := .running }
        else s)
      fun s => .ret (decide ((s.proc i).state = .runnable))
    if run then
      store (.cpu c) .tau fun s => { s with on := upd s.on c (some i) }
      schedulerLoop c (i + 1) n
    else schedulerLoop c (i + 1) n

/-- One round of the scheduler of CPU `c` over the `n` entries of the table. -/
def scheduler (c n : Nat) : Code X Unit := do
  acquire (.cpu c) .ptable
  schedulerLoop c 0 n
  release (.cpu c) .ptable

/-! ### Sleeping and waking -/

/-- Atomically release lock and sleep on `chan`; timer interrupts may come before the lock is taken
again. -/
def sleep (p : Nat) (chan : Chan) (lk : Lk) (delay : Nat) : Code X Unit := do
  if lk ≠ .ptable then
    acquire (.proc p) .ptable
    release (.proc p) lk
  store (.proc p) .tau fun s => s.setProc p fun q => { q with chan := chan, state := .sleeping }
  sched p
  store (.proc p) .tau fun s => s.setProc p fun q => { q with chan := .null }
  if lk ≠ .ptable then
    release (.proc p) .ptable
    interrupts p delay
    acquire (.proc p) lk

/-- Wake up all processes sleeping on `chan`. -/
def wakeup (t : Tid) (chan : Chan) : Code X Unit := do
  acquire t .ptable
  store t .tau fun s => s.wakeup1 chan
  release t .ptable

end Code

namespace Machine

variable {X : Type}

/-- The first entry with the given pid. -/
def findPid (s : Machine X) (pid : Int) : Option Nat :=
  (List.range s.nproc).find? fun p => (s.proc p).pid == pid

/-- What `kill` by process `p` does to the table. -/
def kill (s : Machine X) (p : Nat) (pid : Int) : Machine X :=
  match s.findPid pid with
  | some z =>
    { s.setProc z fun q => { q with
        killed := true
        state := if q.state = .sleeping then .runnable else q.state } with
      log := .kill p pid 0 :: s.log }
  | none => { s with log := .kill p pid (-1) :: s.log }

/-- What `allocproc` does to entry `i` if it is free. -/
def alloc (s : Machine X) (i : Nat) : Machine X :=
  if (s.proc i).state = .unused then
    { s.setProc i fun q => { q with
        state := .embryo
        pid := s.nextpid
        retime := 0
        rutime := 0
        stime := 0 } with
      nextpid := (BitVec.ofInt 32 (s.nextpid + 1)).toInt
      log := .created i s.nextpid :: s.log }
  else s

/-- The first zombie among the children of `p`. -/
def zombieChild (s : Machine X) (p : Nat) : Option Nat :=
  (List.range s.nproc).find? fun z =>
    decide ((s.proc z).parent = some p ∧ (s.proc z).state = .zombie)

/-- `havekids`. -/
def havekids (s : Machine X) (p : Nat) : Bool :=
  (List.range s.nproc).any fun z => decide ((s.proc z).parent = some p)

/-- The condition under which `wait` returns `-1`. -/
def waitFails (s : Machine X) (p : Nat) : Bool := !s.havekids p || (s.proc p).killed

/-- One turn of the loop of `wait`, with the fields it clears: free a zombie child, or fail. -/
def reap (s : Machine X) (clear : Pcb → Pcb) (p : Nat) : Machine X :=
  match s.zombieChild p with
  | some z => { s.setProc z clear with log := .waited p (s.proc z).pid :: s.log }
  | none => if s.waitFails p then { s with log := .waitFailed p :: s.log } else s

/-- The loop of `exit` that passes abandoned children to init. -/
def abandon (s : Machine X) (p : Nat) : Machine X :=
  let s' := { s with proc := fun z =>
    if (s.proc z).parent = some p then { s.proc z with parent := some initproc } else s.proc z }
  if (List.range s.nproc).any fun z =>
      decide ((s.proc z).parent = some p ∧ (s.proc z).state = .zombie) then
    s'.wakeup1 (.proc initproc)
  else s'

/-- The channel `p->parent`. -/
def parentChan (s : Machine X) (p : Nat) : Chan :=
  match (s.proc p).parent with
  | some q => .proc q
  | none => .null

/-- `updatestatistics`. -/
def updatestatistics (s : Machine X) : Machine X :=
  { s with proc := fun p =>
      match (s.proc p).state with
      | .sleeping => { s.proc p with stime := (s.proc p).stime + 1 }
      | .runnable => { s.proc p with retime := (s.proc p).retime + 1 }
      | .running => { s.proc p with rutime := (s.proc p).rutime + 1 }
      | _ => s.proc p }

end Machine

section Calls

variable {X : Type}

/-- Kill the process with the given pid. -/
def kill (p : Nat) (pid : Int) : Code X Int := do
  acquire (.proc p) .ptable
  let r ← .act (.kill pid) (fun s => s.runs (.proc p)) (fun s => s.kill p pid)
    fun s => .ret (if (s.findPid pid).isSome then 0 else -1)
  release (.proc p) .ptable
  pure r

/-- What `fork` finds: whether `kalloc` and `copyuvm` succeed, and how many timer interrupts come
between its stores outside the lock. -/
structure ForkOracle where
  kalloc : Bool
  copyuvm : Bool
  delay : Nat → Nat

/-- The search of `allocproc` for an entry that is free, from entry `i` on, `n` of them. -/
def allocLoop (p i : Nat) : Nat → Code X (Option Nat)
  | 0 => pure none
  | n + 1 => do
    let found ← .act .alloc (fun s => s.runs (.proc p)) (fun s => s.alloc i)
      fun s => .ret (decide ((s.proc i).state = .unused))
    if found then pure (some i) else allocLoop p (i + 1) n

/-- Look in the process table for an entry that is free and give it a kernel stack. -/
def allocproc (p n : Nat) (o : ForkOracle) : Code X (Option Nat) := do
  acquire (.proc p) .ptable
  let np ← allocLoop p 0 n
  release (.proc p) .ptable
  match np with
  | none => pure none
  | some np =>
    interrupts p (o.delay 0)
    if o.kalloc then
      store (.proc p) .tau fun s => s.setProc np fun q => { q with kstack := true, forkret := true }
      pure (some np)
    else
      store (.proc p) (.forkFails np) fun s => s.setProc np fun q =>
        { q with kstack := false, state := .unused }
      pure none

/-- Create a new process, in a table of `n` entries. -/
def fork (p n : Nat) (o : ForkOracle) : Code X Int := do
  let np ← allocproc p n o
  match np with
  | none => pure (-1)
  | some np =>
    interrupts p (o.delay 1)
    if o.copyuvm then
      store (.proc p) .tau fun s => s.setProc np fun q => { q with parent := some p }
      interrupts p (o.delay 2)
      let pid ← .act .tau (fun s => s.runs (.proc p))
        (fun s => { s with log := .forked p (s.proc np).pid :: s.log })
        fun s => .ret (s.proc np).pid
      store (.proc p) .tau fun s => s.setProc np fun q => { q with state := .runnable }
      pure pid
    else
      store (.proc p) .tau fun s => s.setProc np fun q => { q with kstack := false }
      interrupts p (o.delay 2)
      store (.proc p) (.forkFails np) fun s => s.setProc np fun q => { q with state := .unused }
      pure (-1)

/-- Exit the current process. Does not return: a zombie is not switched to again. -/
def exit (p : Nat) : Code X Unit := do
  if p = initproc then .panic .initExiting
  else
    acquire (.proc p) .ptable
    store (.proc p) .tau fun s => s.wakeup1 (s.parentChan p)
    store (.proc p) .tau fun s => s.abandon p
    store (.proc p) .tau fun s => s.setProc p fun q => { q with state := .zombie }
    sched p

/-- The loop of `wait` and `wait2`: the entry of the child that was freed, as it was before. -/
def waitLoop (clear : Pcb → Pcb) (p : Nat) : Nat → Code X (Option Pcb)
  | 0 => unfinished
  | n + 1 => do
    let r ← .act .tau (fun s => s.runs (.proc p)) (fun s => s.reap clear p)
      fun s => .ret (s.zombieChild p |>.map s.proc, s.waitFails p)
    match r with
    | (some q, _) =>
      release (.proc p) .ptable
      pure (some q)
    | (none, true) =>
      release (.proc p) .ptable
      pure none
    | (none, false) =>
      sleep p (.proc p) .ptable 0
      waitLoop clear p n

/-- The fields `wait` clears. -/
def Pcb.clear (q : Pcb) : Pcb :=
  { q with kstack := false, state := .unused, pid := 0, parent := none, killed := false }

/-- The fields `wait2` clears. -/
def Pcb.clear2 (q : Pcb) : Pcb :=
  { q.clear with retime := 0, rutime := 0, stime := 0 }

/-- Wait for a child process to exit and return its pid; at most `n` turns are considered. -/
def wait (p n : Nat) : Code X Int := do
  acquire (.proc p) .ptable
  let q ← waitLoop Pcb.clear p n
  pure ((q.map Pcb.pid).getD (-1))

/-- Like `wait`, with the times stored through the pointers. -/
def wait2 (p n : Nat) : Code X (Int × Option (Int × Int × Int)) := do
  acquire (.proc p) .ptable
  let q ← waitLoop Pcb.clear2 p n
  pure ((q.map Pcb.pid).getD (-1), q.map fun q => (q.retime, q.rutime, q.stime))

/-- A process misbehaves in user space. -/
def trap (p : Nat) : Code X Unit :=
  store (.proc p) .tau fun s =>
    { s.setProc p fun q => { q with killed := true } with
      log := .trapped (s.proc p).pid :: s.log }

/-- The timer interrupt's count of process times. -/
def updatestatistics (t : Tid) : Code X Unit := do
  acquire t .ptable
  store t .tau fun s => s.updatestatistics
  release t .ptable

/-- A process sleeps under a lock of other code. -/
def sleepOn (p : Nat) (chan : Chan) (lk : Lk) (delay : Nat) : Code X Unit := do
  acquire (.proc p) lk
  sleep p chan lk delay
  release (.proc p) lk

/-- A process has the result of a call. -/
def note (p : Nat) (e : Event) : Code X Unit :=
  store (.proc p) .tau fun s => { s with log := e :: s.log }

end Calls

/-- The calls of a process. -/
inductive Call
  | forkret
  | fork (o : ForkOracle)
  | exit
  | wait (turns : Nat)
  | wait2 (turns : Nat)
  | kill (pid : Int)
  | yield
  | sleepOn (chan : Chan) (lk : Lk) (delay : Nat)
  | wakeup (chan : Chan)
  | trap
  | updatestatistics

/-- The code of a call by process `p`, in a table of `n` entries. -/
def Call.code {X : Type} (n p : Nat) : Call → Code X Unit
  | .forkret => Kernel.forkret p
  | .fork o => do
    let r ← Kernel.fork p n o
    note p (.forkReturned p r)
  | .exit => Kernel.exit p
  | .wait turns => do
    let r ← Kernel.wait p turns
    note p (.waitReturned p r)
  | .wait2 turns => do
    let (r, _) ← Kernel.wait2 p turns
    note p (.waitReturned p r)
  | .kill pid => do
    let r ← Kernel.kill p pid
    note p (.killReturned p pid r)
  | .yield => Kernel.yield p
  | .sleepOn chan lk delay => Kernel.sleepOn p chan lk delay
  | .wakeup chan => Kernel.wakeup (.proc p) chan
  | .trap => Kernel.trap p
  | .updatestatistics => Kernel.updatestatistics (.proc p)

/-- What the threads of a machine with `n` entries in its process table may start: processes make
system calls, and CPUs go through the rounds of their scheduler, with interrupts between them. -/
inductive Calls {X : Type} (n : Nat) : Tid → Code X Unit → Prop
  | proc (p : Nat) (hp : p < n) (call : Call) : Calls n (.proc p) (call.code n p)
  | cpu (c : Nat) : Calls n (.cpu c) (scheduler c n)
  | wakeup (c : Nat) (chan : Chan) : Calls n (.cpu c) (Kernel.wakeup (.cpu c) chan)
  | updatestatistics (c : Nat) : Calls n (.cpu c) (Kernel.updatestatistics (.cpu c))

/-- The machine after `userinit`: init waits for its first turn, and no CPU executes a process. -/
def boot {X : Type} (nproc ncpu : Nat) (x : X) : Machine X where
  nproc := nproc
  ncpu := ncpu
  proc := upd (fun _ => {}) initproc
    { state := .runnable, pid := 1, kstack := true, forkret := true }
  nextpid := 2
  lock := fun _ => none
  ncli := fun _ => 0
  on := fun _ => none
  data := x
  log := [.created initproc 1]

end Xv6.Kernel
