import Xv6.Fs.Mkfs
import Xv6.Vm.Memory

/-!
# Processes and their memory

`allocproc`, `userinit`, `fork`, `exit` and `wait` of `proc.c`, and `exec.c`, as far as they take
pages, give them back and hand them on. A system call runs alone here. What `exit` and `fork` do
with files is the code of `Xv6.Fs.Sysfile`. -/

namespace Xv6.Vm

open Lib

/-! ### `proc.c` -/

/-- Look for an unused process and give it a kernel stack. -/
def allocproc : V (Option Nat) := do
  let p ← .act .tau (fun _ => true)
    (fun s => match findFrom (fun p => decide ((s.pcb p).state = .unused)) 0 NPROC with
      | some p => s.setPcb p fun c => { c with state := .embryo }
      | none => s)
    fun s => .ret (findFrom (fun p => decide ((s.pcb p).state = .unused)) 0 NPROC)
  match p with
  | none => pure none
  | some p =>
    match ← kalloc with
    | none =>
      write fun s => s.setPcb p fun c => { c with kstack := 0, state := .unused }
      pure none
    | some g =>
      write fun s => s.setPcb p fun c => { c with kstack := g }
      pure (some p)

/-- Set up the first user process with the program `init`. The process 0 of the state has the root
as its current directory already. -/
def userinit (sy : Symbols) (init : List Byte) : V Unit := do
  match ← allocproc with
  | none => .panic .userinit
  | some p =>
    match ← setupkvm sy with
    | none => .panic .userinit
    | some pgdir =>
      write fun s => s.setPcb p fun c => { c with pgdir := pgdir }
      inituvm pgdir init
      write fun s => s.setSz p PGSIZE
      write fun s => s.setPcb p fun c => { c with esp := PGSIZE, state := .live }

/-- Create a new process as a copy of `p`. -/
def fork (sy : Symbols) (p : Nat) : V Int := do
  match ← allocproc with
  | none => pure (-1)
  | some np =>
    let pgdir ← read fun s => (s.pcb p).pgdir
    let sz ← read fun s => (s.fs.proc p).sz
    match ← copyuvm sy pgdir sz with
    | none =>
      let kstack ← read fun s => (s.pcb np).kstack
      kfree sy kstack
      write fun s => s.setPcb np fun c => { c with pgdir := 0, kstack := 0, state := .unused }
      pure (-1)
    | some d =>
      write fun s => s.setPcb np fun c =>
        { c with pgdir := d, parent := some p, esp := (s.pcb p).esp }
      let pid ← onFs (Xv6.fork p (some np))
      write fun s => s.setPcb np fun c => { c with state := .live }
      pure pid

/-- The children of `p` become children of process 0, and `p` a zombie. -/
def State.abandon (s : State) (p : Nat) : State :=
  { s with pcb := fun q =>
      { s.pcb q with
        parent := if (s.pcb q).parent = some p then some 0 else (s.pcb q).parent
        state := if q = p then .zombie else (s.pcb q).state } }

/-- Exit process `p`. -/
def exit (p : Nat) : V Int := do
  onFs (Xv6.exit p)
  write fun s => s.abandon p
  pure 0

/-- The first zombie child of `p`. -/
def State.zombieChild (s : State) (p : Nat) : Option Nat :=
  findFrom (fun q => decide ((s.pcb q).parent = some p ∧ (s.pcb q).state = .zombie)) 0 NPROC

/-- Wait for a child of `p` to exit, and free what is left of it. Process `p` sleeps as long as it
has children, none of them a zombie, and is not killed. -/
def wait (sy : Symbols) (p : Nat) : V Int := do
  let q ← .act .tau
    (fun s => (s.zombieChild p).isSome ||
      (findFrom (fun q => decide ((s.pcb q).parent = some p)) 0 NPROC).isNone ||
        (s.fs.proc p).killed)
    id fun s => .ret (s.zombieChild p)
  match q with
  | none => pure (-1)
  | some q =>
    let kstack ← read fun s => (s.pcb q).kstack
    kfree sy kstack
    write fun s => s.setPcb q fun c => { c with kstack := 0 }
    let pgdir ← read fun s => (s.pcb q).pgdir
    freevm sy pgdir
    write fun s => s.setPcb q fun c => { c with state := .unused, parent := none }
    pure q

/-! ### `exec.c` -/

def MAXARG : Nat := 32

/-- `if(o) f(o);`. -/
def whenSome (o : Option Nat) (f : Nat → V Unit) : V Unit :=
  match o with
  | none => pure ()
  | some a => f a

/-- `goto bad`. -/
def execBad (sy : Symbols) (pgdir ip : Option Nat) : V Int := do
  whenSome pgdir fun pgdir => freevm sy pgdir
  whenSome ip fun ip => onFs (iunlockput ip)
  pure (-1)

/-- Load one segment: the new size, or `none` for `goto bad`. -/
def execSegment (sy : Symbols) (p ip pgdir sz offset vaddr filesz memsz : Nat) :
    V (Option Nat) := do
  write fun s => { s with wrapped := s.wrapped || decide (2 ^ 32 ≤ vaddr + memsz) }
  let sz ← allocuvm sy pgdir sz ((vaddr + memsz) % 2 ^ 32)
  if sz = 0 then pure none
  else
    match ← loaduvm pgdir vaddr p ip offset filesz with
    | false => pure none
    | true => pure (some sz)

/-- The loop of `exec` over the program headers, `n` of them from offset `off` on: the new size, or
`none` for `goto bad`. -/
def execLoop (sy : Symbols) (p ip pgdir sz off : Nat) : Nat → V (Option Nat)
  | 0 => pure (some sz)
  | n + 1 => do
    let (r, bytes) ← onFs (readi p ip off PROGHDRSIZE)
    let ph := cstr bytes
    if r ≠ PROGHDRSIZE then pure none
    else if ph.le 0 4 ≠ ELF_PROG_LOAD then
      execLoop sy p ip pgdir sz ((off + PROGHDRSIZE) % 2 ^ 32) n
    else if ph.le 20 4 < ph.le 16 4 then pure none
    else
      match ← execSegment sy p ip pgdir sz (ph.le 4 4) (ph.le 8 4) (ph.le 16 4) (ph.le 20 4) with
      | none => pure none
      | some sz => execLoop sy p ip pgdir sz ((off + PROGHDRSIZE) % 2 ^ 32) n

/-- Push the argument strings from number `argc` on below `sp`; the result is the new `sp` with the
addresses of the strings. -/
def pushArgs (pgdir sp argc : Nat) (ustack : List Nat) :
    List (List Byte) → V (Option (Nat × List Nat))
  | [] => pure (some (sp, ustack))
  | arg :: argv =>
    if MAXARG ≤ argc then pure none
    else do
      let sp := (sp + 2 ^ 32 - (arg.length + 1) % 2 ^ 32) % 2 ^ 32 / 4 * 4
      match ← copyout pgdir sp (arg ++ [0]) with
      | false => pure none
      | true => pushArgs pgdir sp (argc + 1) (ustack ++ [sp]) argv

/-- The bytes of a word. -/
def wordBytes (e : Nat) : List Byte := (List.range 4).map fun i => BitVec.ofNat 8 (e / 256 ^ i)

/-- The part of `exec` that builds the stack below `sz`: the new `sp`, or `none` for `goto bad`. -/
def execStack (pgdir sz : Nat) (argv : List (List Byte)) : V (Option Nat) := do
  match ← pushArgs pgdir sz 0 [] argv with
  | none => pure none
  | some (sp, args) =>
    let argc := argv.length
    let ustack := [0xffffffff, argc, (sp + 2 ^ 32 - (argc + 1) * 4) % 2 ^ 32] ++ args ++ [0]
    let sp := (sp + 2 ^ 32 - (3 + argc + 1) * 4) % 2 ^ 32
    match ← copyout pgdir sp (ustack.flatMap wordBytes) with
    | false => pure none
    | true => pure (some sp)

/-- `exec` once the memory is allocated, `sz` bytes of it. -/
def execCommit (sy : Symbols) (p pgdir sz : Nat) (argv : List (List Byte)) : V Int := do
  clearpteu pgdir (sz - 2 * PGSIZE)
  match ← execStack pgdir sz argv with
  | none => execBad sy (some pgdir) none
  | some sp =>
    let oldpgdir ← read fun s => (s.pcb p).pgdir
    write fun s => (s.setPcb p fun c => { c with pgdir := pgdir, esp := sp }).setSz p sz
    switchuvm p
    freevm sy oldpgdir
    pure 0

/-- `exec` once the program is loaded, with the size `sz`. -/
@[irreducible] def execUser (sy : Symbols) (p pgdir sz : Nat) (argv : List (List Byte)) :
    V Int := do
  let sz ← allocuvm sy pgdir (PGROUNDUP sz) ((PGROUNDUP sz + 2 * PGSIZE) % 2 ^ 32)
  if sz = 0 then execBad sy (some pgdir) none else execCommit sy p pgdir sz argv

/-- `exec` from `setupkvm` on, for the ELF header `elf`. -/
def execImage (sy : Symbols) (p ip : Nat) (elf : Bytes) (argv : List (List Byte)) : V Int := do
  match ← setupkvm sy with
  | none => execBad sy none (some ip)
  | some pgdir =>
    match ← execLoop sy p ip pgdir 0 (elf.le 28 4) (elf.le 44 2) with
    | none => execBad sy (some pgdir) (some ip)
    | some sz =>
      onFs (iunlockput ip)
      execUser sy p pgdir sz argv

/-- Replace the memory of process `p` by that of the program `path`. The bytes `junk` are those of
the uninitialised ELF header: `readi`'s `-1` is not less than `sizeof(elf)`. -/
def exec (sy : Symbols) (p : Nat) (path : List Byte) (argv : List (List Byte)) (junk : List Byte) :
    V Int := do
  match ← onFs (namei p path) with
  | none => pure (-1)
  | some ip =>
    onFs (ilock ip)
    let (r, bytes) ← onFs (readi p ip 0 ELFHDRSIZE)
    let elf := cstr (if r = -1 then junk else bytes)
    if 0 ≤ r ∧ r < ELFHDRSIZE then execBad sy none (some ip)
    else if elf.le 0 4 ≠ ELF_MAGIC then execBad sy none (some ip)
    else execImage sy p ip elf argv

/-! ### Runs -/

/-- The system calls that take pages or give them back. -/
inductive Call
  | fork
  | exec (path : List Byte) (argv : List (List Byte)) (junk : List Byte)
  | sbrk (n : BitVec 32)
  | pipe (ptr : Nat)
  | close (fd : Int)
  | exit
  | wait

/-- The code of a system call of process `p`. -/
def Call.code (sy : Symbols) (p : Nat) : Call → V Int
  | .fork => Vm.fork sy p
  | .exec path argv junk => Vm.exec sy p path argv junk
  | .sbrk n => growproc sy p n.toInt
  | .pipe ptr => onFs (sysPipe p ptr)
  | .close fd => onFs (sysClose p fd)
  | .exit => Vm.exit p
  | .wait => Vm.wait sy p

/-- The argument strings of `exec` fit in one page. -/
def Call.Fits : Call → Prop
  | .exec _ argv _ => (argv.map fun arg => arg.length + 1).sum ≤ PGSIZE
  | _ => True

/-- The kernel after `kinit2`, with the pages `l` on the free list and the sectors `sect` on the
disk. -/
def boot (sect : Nat → Bytes) (page : Nat → Bytes) (l : List Nat) : State where
  fs := { Xv6.boot sect with freelist := l }
  page := page
  pcb := fun _ => {}

/-- The states that system calls reach, from a kernel with the free pages `l`. -/
inductive Reachable (sy : Symbols) (l : List Nat) : State → Prop
  | userinit {sect page : Nat → Bytes} {init : List Byte} {s : State}
      (h : (userinit sy init).run (boot sect page l) = .ok () s) : Reachable sy l s
  | call {s s' : State} {p : Nat} {call : Call} {r : Int} (h : Reachable sy l s) (hp : p < NPROC)
      (hlive : (s.pcb p).state = .live) (hfits : call.Fits)
        (hr : (call.code sy p).run s = .ok r s') :
      Reachable sy l s'

end Xv6.Vm
