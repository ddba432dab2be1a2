import Xv6.Lib.Prog
import Xv6.Lib.Bytes
import Xv6.Param

/-!
# The state of the file system code

The kernel state that `fs.c`, `log.c`, `file.c` and `sysfile.c` work on. Sectors are what `bread`
returns for them, that is, the contents seen through the buffer cache. The inode cache keeps the
memory layout of `struct inode`, because `bmap` indexes `addrs` past its end.
-/

namespace Xv6

open Lib

/-- The panics of the modelled code, one for each message. -/
inductive Panic
  | ideNotDisk1
  | ideSectorOutOfRange
  | tooBigATransaction
  | writeOutsideOfTrans
  | ballocOutOfBlocks
  | freeingFreeBlock
  | iallocNoInodes
  | igetNoInodes
  | ilock
  | ilockNoType
  | iunlock
  | iputBusy
  | bmapOutOfRange
  | dirlookupNotDir
  | dirlinkRead
  | dirlink
  | isdiremptyReadi
  | unlinkNlink
  | unlinkWritei
  | createDots
  | createDirlink
  | filedup
  | fileclose
  | fileread
  | filewrite
  | shortFilewrite
  | initExiting
  | loaduvmAligned
  | loaduvmExist
  | getcwdEntry
  | getcwdName
  | getcwdDevice
  | getcwdType
  | nullInode
  deriving DecidableEq, Repr

/-- In-memory copy of an inode (`struct inode` of `file.h`). -/
structure Inode where
  dev : Nat := 0
  inum : Nat := 0
  ref : Int := 0
  busy : Bool := false
  valid : Bool := false
  type : BitVec 16 := 0
  major : BitVec 16 := 0
  minor : BitVec 16 := 0
  nlink : BitVec 16 := 0
  size : Nat := 0
  addrs : Nat → Nat := fun _ => 0

/-- Index of the word `addrs[0]` in `struct inode`: `dev`, `inum`, `ref`, `flags`, two words of
shorts and `size` come before it. -/
def ADDRSWORD : Nat := 7

/-- Words in a `struct inode`, whose `addrs` has `NDIRECT+1` elements. -/
def INODEWORDS : Nat := ADDRSWORD + (NDIRECT + 1)

/-- The words of a `struct inode`, in memory order. -/
def Inode.word (ip : Inode) : Nat → Nat
  | 0 => ip.dev
  | 1 => ip.inum
  | 2 => (BitVec.ofInt 32 ip.ref).toNat
  | 3 => ip.busy.toNat + 2 * ip.valid.toNat
  | 4 => ip.type.toNat + 65536 * ip.major.toNat
  | 5 => ip.minor.toNat + 65536 * ip.nlink.toNat
  | 6 => ip.size
  | n + 7 => ip.addrs n

/-- Store one word of a `struct inode`. -/
def Inode.setWord (ip : Inode) (w v : Nat) : Inode :=
  match w with
  | 0 => { ip with dev := v }
  | 1 => { ip with inum := v }
  | 2 => { ip with ref := (BitVec.ofNat 32 v).toInt }
  | 3 => { ip with busy := v.testBit 0, valid := v.testBit 1 }
  | 4 => { ip with type := BitVec.ofNat 16 v, major := BitVec.ofNat 16 (v / 65536) }
  | 5 => { ip with minor := BitVec.ofNat 16 v, nlink := BitVec.ofNat 16 (v / 65536) }
  | 6 => { ip with size := v }
  | n + 7 => { ip with addrs := upd ip.addrs n v }

/-- `icache.inode[k].addrs[i]` in the contiguous array `icache.inode`. -/
def addrsGet (ic : Nat → Inode) (k i : Nat) : Nat :=
  let w := INODEWORDS * k + ADDRSWORD + i
  (ic (w / INODEWORDS)).word (w % INODEWORDS)

/-- Store into `icache.inode[k].addrs[i]` in the contiguous array `icache.inode`. -/
def addrsSet (ic : Nat → Inode) (k i v : Nat) : Nat → Inode :=
  let w := INODEWORDS * k + ADDRSWORD + i
  upd ic (w / INODEWORDS) ((ic (w / INODEWORDS)).setWord (w % INODEWORDS) v)

/-- `struct log`; `lh` lists `log.lh.sector[0]` to `log.lh.sector[log.lh.n - 1]`. -/
structure Log where
  start : Nat
  size : Nat
  busy : Bool
  lh : List Nat

/-- The kinds of `struct file`. -/
inductive FdType
  | none
  | pipe
  | inode
  deriving DecidableEq, Repr

/-- What opening and closing reads and writes of a `struct pipe`. -/
structure Pipe where
  readopen : Bool := false
  writeopen : Bool := false

/-- `struct file`; `pipe` is a page of memory and `ip` a slot of the inode cache. -/
structure File where
  type : FdType := .none
  ref : Int := 0
  readable : Bool := false
  writable : Bool := false
  pipe : Nat := 0
  ip : Nat := 0
  off : Nat := 0

/-- What the file system code reads and writes of `struct proc`. -/
structure Proc where
  sz : Nat := 0
  ofile : Nat → Option Nat := fun _ => none
  cwd : Option Nat := none
  killed : Bool := false

/-- The kernel state. `inode k` is `icache.inode[k]` for `k < NINODE`; `inode NINODE` stands for
the memory after the array. `freelist` is `kmem.freelist`, and `pipe g` the pipe in page `g`. -/
structure State where
  disksize : Nat
  sector : Nat → Bytes
  log : Log
  inode : Nat → Inode
  file : Nat → File
  proc : Nat → Proc
  input : List Byte
  pipe : Nat → Pipe := fun _ => {}
  freelist : List Nat := []

/-- What the log and the inode cache show of an action to an observer. -/
inductive Label
  | tau
  | beginTrans
  | commitTrans
  | logWrite (sector : Nat)
  | iput (k : Nat)
  | bmapTest (zero : Bool)
  deriving DecidableEq, Repr

/-- Kernel code. -/
abbrev K := Prog Label State Panic

namespace State

def setInode (s : State) (k : Nat) (f : Inode → Inode) : State :=
  { s with inode := upd s.inode k (f (s.inode k)) }

def setFile (s : State) (k : Nat) (f : File → File) : State :=
  { s with file := upd s.file k (f (s.file k)) }

def setProc (s : State) (p : Nat) (f : Proc → Proc) : State :=
  { s with proc := upd s.proc p (f (s.proc p)) }

def setPipe (s : State) (g : Nat) (f : Pipe → Pipe) : State :=
  { s with pipe := upd s.pipe g (f (s.pipe g)) }

variable (s : State) (k : Nat) (f : Inode → Inode)

@[simp] lemma setInode_sector : (s.setInode k f).sector = s.sector := rfl
@[simp] lemma setInode_inode_same : (s.setInode k f).inode k = f (s.inode k) := by
  simp [setInode]

lemma setInode_inode_ne {k j : Nat} (hj : j ≠ k) : (s.setInode k f).inode j = s.inode j := by
  simp [setInode, upd_ne hj]

end State

/-- An action that only reads the state. -/
def read {α : Type} (f : State → α) : K α := .get .tau f

/-- An action on the state that nobody observes. -/
def write (u : State → State) : K Unit := .modify .tau u

/-- `if(c) p;` without an `else`. -/
def K.when (c : Prop) [Decidable c] (p : K Unit) : K Unit := if c then p else pure ()

lemma K.when_pos {c : Prop} [Decidable c] {p : K Unit} (h : c) : K.when c p = p := if_pos h

lemma K.when_neg {c : Prop} [Decidable c] {p : K Unit} (h : ¬ c) : K.when c p = pure () := if_neg h

/-! ### The actions of a run -/

section Run

open Prog

variable {α β : Type} {s s' : State} {a : α} {p : K α} {g : α → K β} {r : Res State Panic β}
  {Q : β → State → Prop} {E : Option Panic → State → Prop}

lemma run_bind_ok (h : p.run s = .ok a s') (hg : (g a).run s' = r) : (p >>= g).run s = r := by
  rw [run_bind, h]
  exact hg

@[simp] lemma run_read (f : State → α) : (read f).run s = .ok (f s) s := rfl

@[simp] lemma run_write (u : State → State) : (write u).run s = .ok () (u s) := rfl

@[simp] lemma wp_read {f : State → α} : (read f >>= g).wp Q E s ↔ (g (f s)).wp Q E s := Iff.rfl

@[simp] lemma wp_write {u : State → State} {g : Unit → K β} :
    (write u >>= g).wp Q E s ↔ (g ()).wp Q E (u s) := Iff.rfl

end Run

end Xv6
