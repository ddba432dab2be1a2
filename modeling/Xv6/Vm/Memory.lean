import Xv6.Fs.Sysfile

/-!
# Physical memory and page tables

`kalloc.c`, `vm.c` and what `proc.c` and `exec.c` do with them. A page is named by its number; page
number `g` stands for the kernel address `p2v(PGSIZE*g)`, and number 0, which `kalloc` never
returns, for the null pointer. The free list is the list of its pages, without the links in them. -/

namespace Xv6.Vm

open Lib

/-! ### `mmu.h` and `memlayout.h` -/

def NPDENTRIES : Nat := 1024
def NPTENTRIES : Nat := 1024
def PTE_P : Nat := 0x001
def PTE_W : Nat := 0x002
def PTE_U : Nat := 0x004
def EXTMEM : Nat := 0x100000
def PHYSTOP : Nat := 0xE000000
def DEVSPACE : Nat := 0xFE000000
def KERNLINK : Nat := KERNBASE + EXTMEM

/-- Page directory index. -/
def PDX (va : Nat) : Nat := va / 2 ^ 22 % 1024

/-- Page table index. -/
def PTX (va : Nat) : Nat := va / 2 ^ 12 % 1024

def PGROUNDUP (sz : Nat) : Nat := (sz + PGSIZE - 1) % 2 ^ 32 / PGSIZE * PGSIZE
def PGROUNDDOWN (a : Nat) : Nat := a / PGSIZE * PGSIZE

/-- `(e & PTE_P) != 0`. -/
def present (e : Nat) : Bool := e &&& PTE_P != 0

/-- The page of `PTE_ADDR(e)`. -/
def frame (e : Nat) : Nat := e / PGSIZE

/-- The addresses that `kernel.ld` defines: `data` starts a page after the text, `fin` is `end`. -/
structure Symbols where
  data : Nat
  fin : Nat
  aligned : data % PGSIZE = 0
  text : KERNLINK < data
  data_le : data ≤ fin
  fin_le : fin ≤ KERNBASE + PHYSTOP

/-! ### The state -/

/-- The states of a process, with `SLEEPING`, `RUNNABLE` and `RUNNING` as one. -/
inductive ProcState
  | unused
  | embryo
  | live
  | zombie
  deriving DecidableEq, Repr

/-- What the memory code and `wait` use of `struct proc`, besides the size; `esp` is `tf->esp`. -/
structure Pcb where
  state : ProcState := .unused
  parent : Option Nat := none
  pgdir : Nat := 0
  kstack : Nat := 0
  esp : Nat := 0

/-- The state of the file system code, whose `freelist` is that of `kalloc.c`, with the pages and
the processes. Two flags nobody reads watch a run: `failed` that a `kalloc` has returned 0, and
`wrapped` that `exec` has loaded a segment that goes past the end of the address space. -/
structure State where
  fs : Xv6.State
  page : Nat → Bytes
  pcb : Nat → Pcb
  failed : Bool := false
  wrapped : Bool := false

inductive Panic
  | kfree
  | remap
  | physTooHigh
  | switchuvm
  | inituvm
  | loaduvmAligned
  | loaduvmExist
  | freevm
  | clearpteu
  | copyuvmExist
  | copyuvmPresent
  | nullPte
  | userinit
  | fs (e : Xv6.Panic)
  deriving DecidableEq, Repr

/-- What an observer sees of an action: that it asks for a page, or nothing. -/
inductive Act
  | tau
  | kalloc
  deriving DecidableEq, Repr

/-- Kernel code that works on memory. -/
abbrev V := Prog Act State Panic

def read {α : Type} (f : State → α) : V α := .get .tau f

def write (u : State → State) : V Unit := .modify .tau u

/-- A call into the file system code. -/
def onFs {α : Type} (q : K α) : V α := q.lift State.fs (fun s fs => { s with fs := fs }) .fs .tau

namespace State

/-- Entry `i` of the page directory or page table in page `g`. -/
def word (s : State) (g i : Nat) : Nat := (s.page g).le (4 * i) 4

def setPage (s : State) (g : Nat) (b : Bytes) : State := { s with page := upd s.page g b }

def setWord (s : State) (g i e : Nat) : State := s.setPage g ((s.page g).putLe (4 * i) 4 e)

def setFree (s : State) (l : List Nat) : State := { s with fs := { s.fs with freelist := l } }

def setPcb (s : State) (p : Nat) (f : Pcb → Pcb) : State :=
  { s with pcb := upd s.pcb p (f (s.pcb p)) }

def setSz (s : State) (p sz : Nat) : State :=
  { s with fs := s.fs.setProc p fun pr => { pr with sz := sz } }

end State

/-! ### `kalloc.c` -/

/-- `memset(v, c, PGSIZE)`. -/
def memset (g : Nat) (c : Byte) : V Unit := write fun s => s.setPage g fun _ => c

/-- Allocate one page. -/
def kalloc : V (Option Nat) :=
  .act .kalloc (fun _ => true)
    (fun s => match s.fs.freelist with
      | [] => { s with failed := true }
      | _ :: l => s.setFree l)
    fun s => .ret s.fs.freelist.head?

/-- Free page `g`. -/
def kfree (sy : Symbols) (g : Nat) : V Unit :=
  if KERNBASE + PGSIZE * g < sy.fin ∨ PHYSTOP ≤ PGSIZE * g then .panic .kfree
  else do
    memset g 1
    write fun s => s.setFree (g :: s.fs.freelist)

/-! ### `vm.c` -/

/-- The page table entry for address `va`, as the page of its table and its index there. -/
def walkpgdir (pgdir va : Nat) (alloc : Bool) : V (Option (Nat × Nat)) := do
  let pde ← read fun s => s.word pgdir (PDX va)
  if present pde then pure (some (frame pde, PTX va))
  else if !alloc then pure none
  else
    match ← kalloc with
    | none => pure none
    | some pgtab =>
      memset pgtab 0
      write fun s => s.setWord pgdir (PDX va) (PGSIZE * pgtab ||| PTE_P ||| PTE_W ||| PTE_U)
      pure (some (pgtab, PTX va))

/-- The loop of `mappages` from address `a` to `last`. -/
def mappagesLoop (pgdir a last pa perm : Nat) : Nat → V Bool
  | 0 => pure true
  | fuel + 1 => do
    match ← walkpgdir pgdir a true with
    | none => pure false
    | some (pgtab, i) =>
      let pte ← read fun s => s.word pgtab i
      if present pte then .panic .remap
      else
        write fun s => s.setWord pgtab i (pa ||| perm ||| PTE_P)
        if a = last then pure true
        else mappagesLoop pgdir ((a + PGSIZE) % 2 ^ 32) last ((pa + PGSIZE) % 2 ^ 32) perm fuel

/-- Create entries for the addresses from `va` on that refer to physical addresses from `pa` on. -/
def mappages (pgdir va size pa perm : Nat) : V Bool :=
  let a := PGROUNDDOWN va
  let last := PGROUNDDOWN ((va + size + 2 ^ 32 - 1) % 2 ^ 32)
  mappagesLoop pgdir a last pa perm ((last + 2 ^ 32 - a) % 2 ^ 32 / PGSIZE + 1)

/-- An entry of the table `kmap`. -/
structure Kmap where
  virt : Nat
  physStart : Nat
  physEnd : Nat
  perm : Nat

/-- The kernel's mappings. -/
def kmap (sy : Symbols) : List Kmap :=
  [⟨KERNBASE, 0, EXTMEM, PTE_W⟩,
   ⟨KERNLINK, KERNLINK - KERNBASE, sy.data - KERNBASE, 0⟩,
   ⟨sy.data, sy.data - KERNBASE, PHYSTOP, PTE_W⟩,
   ⟨DEVSPACE, DEVSPACE, 0, PTE_W⟩]

/-- The loop of `setupkvm` over the table `kmap`. -/
def setupkvmLoop (pgdir : Nat) : List Kmap → V Bool
  | [] => pure true
  | k :: ks => do
    let size := (k.physEnd + 2 ^ 32 - k.physStart) % 2 ^ 32
    match ← mappages pgdir k.virt size k.physStart k.perm with
    | false => pure false
    | true => setupkvmLoop pgdir ks

/-- Set up the kernel part of a page table. -/
def setupkvm (sy : Symbols) : V (Option Nat) := do
  match ← kalloc with
  | none => pure none
  | some pgdir =>
    memset pgdir 0
    if DEVSPACE < KERNBASE + PHYSTOP then .panic .physTooHigh
    else
      match ← setupkvmLoop pgdir (kmap sy) with
      | false => pure none
      | true => pure (some pgdir)

/-- The part of `switchuvm` that is not about the processor. -/
def switchuvm (p : Nat) : V Unit := do
  let pgdir ← read fun s => (s.pcb p).pgdir
  if pgdir = 0 then .panic .switchuvm else pure ()

/-- Load the initcode into address 0 of `pgdir`. -/
def inituvm (pgdir : Nat) (init : List Byte) : V Unit :=
  if PGSIZE ≤ init.length then .panic .inituvm
  else do
    match ← kalloc with
    | none => .panic .nullPte
    | some mem =>
      memset mem 0
      let _ ← mappages pgdir 0 PGSIZE (PGSIZE * mem) (PTE_W ||| PTE_U)
      write fun s => s.setPage mem ((s.page mem).splice 0 init)

/-- The loop of `loaduvm`. -/
def loaduvmLoop (pgdir addr p ip offset sz i : Nat) : Nat → V Bool
  | 0 => pure true
  | fuel + 1 =>
    if i < sz then do
      match ← walkpgdir pgdir ((addr + i) % 2 ^ 32) false with
      | none => .panic .loaduvmExist
      | some (pgtab, j) =>
        let pte ← read fun s => s.word pgtab j
        let n := if sz - i < PGSIZE then sz - i else PGSIZE
        let (r, bytes) ← onFs (readi p ip ((offset + i) % 2 ^ 32) n)
        write fun s => s.setPage (frame pte) ((s.page (frame pte)).splice 0 bytes)
        if r ≠ n then pure false
        else loaduvmLoop pgdir addr p ip offset sz (i + PGSIZE) fuel
    else pure true

/-- Load a program segment into `pgdir`. -/
def loaduvm (pgdir addr p ip offset sz : Nat) : V Bool :=
  if addr % PGSIZE ≠ 0 then .panic .loaduvmAligned
  else loaduvmLoop pgdir addr p ip offset sz 0 (sz / PGSIZE + 1)

/-- The loop of `deallocuvm` from address `a` on. -/
def deallocuvmLoop (sy : Symbols) (pgdir oldsz a : Nat) : Nat → V Unit
  | 0 => pure ()
  | fuel + 1 =>
    if a < oldsz then do
      match ← walkpgdir pgdir a false with
      | none =>
        deallocuvmLoop sy pgdir oldsz ((a + (NPTENTRIES - 1) * PGSIZE + PGSIZE) % 2 ^ 32) fuel
      | some (pgtab, i) =>
        let pte ← read fun s => s.word pgtab i
        if present pte then
          if frame pte = 0 then .panic .kfree
          else
            kfree sy (frame pte)
            write fun s => s.setWord pgtab i 0
            deallocuvmLoop sy pgdir oldsz ((a + PGSIZE) % 2 ^ 32) fuel
        else deallocuvmLoop sy pgdir oldsz ((a + PGSIZE) % 2 ^ 32) fuel
    else pure ()

/-- Deallocate user pages to bring the process size from `oldsz` to `newsz`. -/
def deallocuvm (sy : Symbols) (pgdir oldsz newsz : Nat) : V Nat :=
  if oldsz ≤ newsz then pure oldsz
  else do
    deallocuvmLoop sy pgdir oldsz (PGROUNDUP newsz) (oldsz / PGSIZE + 1)
    pure newsz

/-- The loop of `allocuvm` from address `a` on; the result says whether there was memory. What
`mappages` returns is not looked at. -/
def allocuvmLoop (pgdir newsz a : Nat) : Nat → V Bool
  | 0 => pure true
  | fuel + 1 =>
    if a < newsz then do
      match ← kalloc with
      | none => pure false
      | some mem =>
        memset mem 0
        let _ ← mappages pgdir a PGSIZE (PGSIZE * mem) (PTE_W ||| PTE_U)
        allocuvmLoop pgdir newsz ((a + PGSIZE) % 2 ^ 32) fuel
    else pure true

/-- Allocate page tables and memory to grow a process from `oldsz` to `newsz`. -/
def allocuvm (sy : Symbols) (pgdir oldsz newsz : Nat) : V Nat :=
  if KERNBASE ≤ newsz then pure 0
  else if newsz < oldsz then pure oldsz
  else do
    match ← allocuvmLoop pgdir newsz (PGROUNDUP oldsz) (newsz / PGSIZE + 1) with
    | true => pure newsz
    | false =>
      let _ ← deallocuvm sy pgdir newsz oldsz
      pure 0

/-- The loop of `freevm` over the directory entries `i`, `i+1`, …, `n` of them. -/
def freevmLoop (sy : Symbols) (pgdir i : Nat) : Nat → V Unit
  | 0 => pure ()
  | n + 1 => do
    let pde ← read fun s => s.word pgdir i
    if present pde then
      kfree sy (frame pde)
      freevmLoop sy pgdir (i + 1) n
    else freevmLoop sy pgdir (i + 1) n

/-- Free a page table and all the pages in the user part. -/
def freevm (sy : Symbols) (pgdir : Nat) : V Unit :=
  if pgdir = 0 then .panic .freevm
  else do
    let _ ← deallocuvm sy pgdir KERNBASE 0
    freevmLoop sy pgdir 0 NPDENTRIES
    kfree sy pgdir

/-- Clear `PTE_U` on a page. -/
def clearpteu (pgdir uva : Nat) : V Unit := do
  match ← walkpgdir pgdir uva false with
  | none => .panic .clearpteu
  | some (pgtab, i) => write fun s => s.setWord pgtab i (s.word pgtab i &&& (2 ^ 32 - 1 - PTE_U))

/-- The loop of `copyuvm` from address `i` on. -/
def copyuvmLoop (pgdir d sz i : Nat) : Nat → V Bool
  | 0 => pure true
  | fuel + 1 =>
    if i < sz then do
      match ← walkpgdir pgdir i false with
      | none => .panic .copyuvmExist
      | some (pgtab, j) =>
        let pte ← read fun s => s.word pgtab j
        if !present pte then .panic .copyuvmPresent
        else
          match ← kalloc with
          | none => pure false
          | some mem =>
            write fun s => s.setPage mem (s.page (frame pte))
            match ← mappages d i PGSIZE (PGSIZE * mem) (PTE_W ||| PTE_U) with
            | false => pure false
            | true => copyuvmLoop pgdir d sz (i + PGSIZE) fuel
    else pure true

/-- Create a copy of a parent's page table for a child. -/
def copyuvm (sy : Symbols) (pgdir sz : Nat) : V (Option Nat) := do
  match ← setupkvm sy with
  | none => pure none
  | some d =>
    match ← copyuvmLoop pgdir d sz 0 (sz / PGSIZE + 1) with
    | true => pure (some d)
    | false =>
      freevm sy d
      pure none

/-- The page of user address `uva`. A missing page table makes the code read through a null
pointer. -/
def uva2ka (pgdir uva : Nat) : V (Option Nat) := do
  match ← walkpgdir pgdir uva false with
  | none => .panic .nullPte
  | some (pgtab, i) =>
    let pte ← read fun s => s.word pgtab i
    if !present pte then pure none
    else if pte &&& PTE_U = 0 then pure none
    else pure (some (frame pte))

/-- The loop of `copyout`. -/
def copyoutLoop (pgdir va : Nat) (src : List Byte) : Nat → V Bool
  | 0 => pure true
  | fuel + 1 =>
    if src.length = 0 then pure true
    else do
      let va0 := PGROUNDDOWN va
      match ← uva2ka pgdir va0 with
      | none => pure false
      | some g =>
        let n := min (PGSIZE - (va - va0)) src.length
        write fun s => s.setPage g ((s.page g).splice (va - va0) (src.take n))
        copyoutLoop pgdir ((va0 + PGSIZE) % 2 ^ 32) (src.drop n) fuel

/-- Copy `src` to user address `va` in page table `pgdir`. -/
def copyout (pgdir va : Nat) (src : List Byte) : V Bool := copyoutLoop pgdir va src src.length

/-! ### `growproc` -/

/-- The end of `growproc`. -/
def setSize (p sz : Nat) : V Int := do
  write fun s => s.setSz p sz
  switchuvm p
  pure 0

/-- Grow the memory of process `p` by `n` bytes. -/
def growproc (sy : Symbols) (p : Nat) (n : Int) : V Int := do
  let sz ← read fun s => (s.fs.proc p).sz
  let pgdir ← read fun s => (s.pcb p).pgdir
  let newsz := ((sz + n) % 2 ^ 32).toNat
  if 0 < n then
    let sz ← allocuvm sy pgdir sz newsz
    if sz = 0 then pure (-1) else setSize p sz
  else if n < 0 then
    let sz ← deallocuvm sy pgdir sz newsz
    if sz = 0 then pure (-1) else setSize p sz
  else setSize p sz

end Xv6.Vm
