import Xv6.Lib.Bytes

/-!
# The user heap

`malloc` and `free` of `umalloc.c`. Blocks are known by the addresses of their headers. Memory is
what stands at the two fields of a header at each address, so that what lies in a block that the
program uses may become a header when the block is split or freed.

What `sbrk` answers is a parameter. The loops have a bound on their turns and give no result when it
is reached. -/

namespace Xv6.User

open Lib

/-- `sizeof(Header)`. -/
def HEADER : Nat := 8

/-- A pointer that `malloc` has returned, and the number of bytes it was asked for. -/
structure Given where
  addr : Nat
  nbytes : Nat
  deriving DecidableEq, Repr

/-- The header of the block. -/
def Given.header (x : Given) : Nat := x.addr - HEADER

/-- The memory and `freep`, which is 0 at first. Then what is told of the run: the pointers that are
in use, the memory that `sbrk` has given, with its size in units, and the units that `morecore` has
asked for, with the argument of `sbrk`. -/
structure Heap where
  ptr : Nat → Nat
  size : Nat → Nat
  freep : Nat := 0
  live : List Given := []
  memory : List (Nat × Nat) := []
  asked : List (Nat × Int) := []

/-- What `sbrk` answers to the amount it is called with: the address of the new memory, or nothing
when it fails. It may depend on the memory that there is. -/
abbrev Sbrk := List (Nat × Nat) → Int → Option Nat

namespace Heap

/-- `a->s.ptr = v`. -/
def setPtr (s : Heap) (a v : Nat) : Heap := { s with ptr := upd s.ptr a v }

/-- `a->s.size = v`. -/
def setSize (s : Heap) (a v : Nat) : Heap := { s with size := upd s.size a v }

section

variable {s : Heap} {a v x : Nat}

@[simp] lemma ptr_setPtr : (s.setPtr a v).ptr a = v := upd_same _ _ _

@[simp] lemma ptr_setPtr_ne (h : x ≠ a) : (s.setPtr a v).ptr x = s.ptr x := upd_ne h

@[simp] lemma size_setPtr : (s.setPtr a v).size = s.size := rfl

@[simp] lemma size_setSize : (s.setSize a v).size a = v := upd_same _ _ _

@[simp] lemma size_setSize_ne (h : x ≠ a) : (s.setSize a v).size x = s.size x := upd_ne h

@[simp] lemma ptr_setSize : (s.setSize a v).ptr = s.ptr := rfl

end

/-- `a + n` for a header. -/
def plus (a n : Nat) : Nat := (a + HEADER * n) % 2 ^ 32

/-! ### `free` -/

/-- The loop of `free`: the block of the list after which `bp` comes. -/
def freeLoop (s : Heap) (bp : Nat) : Nat → Nat → Option Nat
  | 0, _ => none
  | k + 1, p =>
    if p < bp ∧ bp < s.ptr p then some p
    else if s.ptr p ≤ p ∧ (p < bp ∨ bp < s.ptr p) then some p
    else freeLoop s bp k (s.ptr p)

/-- `bp` is joined to the block after `p` or points to it. -/
def linkUp (s : Heap) (bp p : Nat) : Heap :=
  if plus bp (s.size bp) = s.ptr p then
    let s := s.setSize bp ((s.size bp + s.size (s.ptr p)) % 2 ^ 32)
    s.setPtr bp (s.ptr (s.ptr p))
  else s.setPtr bp (s.ptr p)

/-- `bp` is joined to `p` or `p` points to it. -/
def linkDown (s : Heap) (bp p : Nat) : Heap :=
  if plus p (s.size p) = bp then
    let s := s.setSize p ((s.size p + s.size bp) % 2 ^ 32)
    s.setPtr p (s.ptr bp)
  else s.setPtr p bp

def free (k ap : Nat) (s : Heap) : Option Heap := do
  let bp := ap - HEADER
  let p ← s.freeLoop bp k s.freep
  pure { (s.linkUp bp p).linkDown bp p with freep := p }

/-! ### `malloc` -/

/-- The argument of `sbrk`, an `int`: `nu * sizeof(Header)`. -/
def amount (nu : Nat) : Int := (BitVec.ofNat 32 (nu * HEADER)).toInt

/-- The result is `freep`, or 0. -/
def morecore (sbrk : Sbrk) (k nu : Nat) (s : Heap) : Option (Nat × Heap) :=
  let nu := if nu < 4096 then 4096 else nu
  let s := { s with asked := s.asked ++ [(nu, amount nu)] }
  match sbrk s.memory (amount nu) with
  | none => some (0, s)
  | some hp => do
    let s := { s with memory := s.memory ++ [(hp, (amount nu).toNat / HEADER)] }
    let s ← (s.setSize hp nu).free k (hp + HEADER)
    pure (s.freep, s)

/-- A block with enough units is taken off the list, or its last part is. -/
def take (s : Heap) (nunits prevp p : Nat) : Nat × Heap :=
  if s.size p = nunits then
    (p + HEADER, { s.setPtr prevp (s.ptr p) with freep := prevp })
  else
    let s := s.setSize p (s.size p - nunits)
    let p := plus p (s.size p)
    (p + HEADER, { s.setSize p nunits with freep := prevp })

/-- The loop of `malloc`. -/
def mallocLoop (sbrk : Sbrk) (nunits : Nat) : Nat → Nat → Nat → Heap → Option (Nat × Heap)
  | 0, _, _, _ => none
  | k + 1, prevp, p, s =>
    if nunits ≤ s.size p then some (s.take nunits prevp p)
    else if p = s.freep then do
      let (p, s) ← s.morecore sbrk k nunits
      if p = 0 then pure (0, s) else mallocLoop sbrk nunits k p (s.ptr p) s
    else mallocLoop sbrk nunits k p (s.ptr p) s

/-- `(nbytes + sizeof(Header) - 1)/sizeof(Header) + 1`. -/
def nunits (nbytes : Nat) : Nat := (nbytes + HEADER - 1) % 2 ^ 32 / HEADER + 1

/-- The list at the first call. -/
def init (s : Heap) (base : Nat) : Heap :=
  if s.freep = 0 then ({ s with freep := base }.setPtr base base).setSize base 0 else s

def malloc (sbrk : Sbrk) (base k nbytes : Nat) (s : Heap) : Option (Nat × Heap) :=
  let s := s.init base
  mallocLoop sbrk (nunits nbytes) k s.freep (s.ptr s.freep) s

/-! ### Runs -/

/-- `malloc` has returned `r`. -/
def given (s : Heap) (r nbytes : Nat) : Heap :=
  if r = 0 then s else { s with live := ⟨r, nbytes⟩ :: s.live }

/-- The answers of `sbrk` are above all earlier memory and within the address space. -/
def Fresh (base : Nat) (sbrk : Sbrk) : Prop :=
  ∀ mem n hp, sbrk mem n = some hp → base + HEADER ≤ hp ∧ hp + n < 2 ^ 32 ∧
    ∀ r ∈ mem, r.1 + HEADER * r.2 ≤ hp

/-- The size is one that `sbrk` takes. -/
def Small (nbytes : Nat) : Prop := ((nbytes + HEADER - 1) / HEADER + 1) * HEADER < 2 ^ 31

/-- A header that begins at `a` would overlap a part of memory that the program uses. -/
def Used (s : Heap) (a : Nat) : Prop :=
  ∃ x ∈ s.live, x.addr < a + HEADER ∧ a < x.header + HEADER * s.size x.header

/-- The calls of a program, and its stores to the blocks that it uses. -/
inductive Step (base : Nat) : Heap → Heap → Prop
  | malloc {s s' : Heap} {sbrk : Sbrk} {k nbytes r : Nat} (small : Small nbytes)
    (fresh : Fresh base sbrk) (h : s.malloc sbrk base k nbytes = some (r, s')) :
    Step base s (s'.given r nbytes)
  | free {s s' : Heap} {k : Nat} {x : Given} (mem : x ∈ s.live) (h : s.free k x.addr = some s') :
    Step base s { s' with live := s'.live.erase x }
  | store {s : Heap} {ptr size : Nat → Nat} (h : ∀ a, ¬s.Used a → ptr a = s.ptr a ∧
      size a = s.size a) :
    Step base s { s with ptr := ptr, size := size }

/-- The heaps that a program comes to. -/
inductive Reachable (base : Nat) : Heap → Prop
  | start (ptr size : Nat → Nat) : Reachable base { ptr := ptr, size := size }
  | step {s s' : Heap} (h : Reachable base s) (hs : Step base s s') : Reachable base s'

end Heap

end Xv6.User
