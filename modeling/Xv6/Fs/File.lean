import Xv6.Fs.Dir

/-!
# File descriptors: `file.c`

Of a pipe only the open ends and the page are modelled here, not the bytes in it.
-/

namespace Xv6

open Lib

/-- Allocate a file structure. -/
def filealloc : K (Option Nat) :=
  .act .tau (fun _ => true)
    (fun s => match findFrom (fun f => decide ((s.file f).ref = 0)) 0 NFILE with
      | some f => s.setFile f fun fl => { fl with ref := 1 }
      | none => s)
    fun s => .ret (findFrom (fun f => decide ((s.file f).ref = 0)) 0 NFILE)

/-- Increment the reference count of file `f`. -/
def filedup (f : Nat) : K Unit :=
  .act .tau (fun _ => true)
    (fun s => if (s.file f).ref < 1 then s else s.setFile f fun fl => { fl with ref := fl.ref + 1 })
    fun s => if (s.file f).ref < 1 then .panic .filedup else .ret ()

/-- The critical section of `fileclose`: drop a reference and, with the last one, the entry. The
result is the entry that was dropped. -/
def fileput (f : Nat) : K (Option File) :=
  .act .tau (fun _ => true)
    (fun s => if (s.file f).ref < 1 then s
      else s.setFile f fun fl =>
        if 0 < fl.ref - 1 then { fl with ref := fl.ref - 1 } else
          { fl with ref := 0, type := .none })
    fun s =>
      if (s.file f).ref < 1 then .panic .fileclose
      else if 0 < (s.file f).ref - 1 then .ret none
      else .ret (some (s.file f))

/-- Take a page from the free list. -/
def kalloc : K (Option Nat) :=
  .act .tau (fun _ => true) (fun s => { s with freelist := s.freelist.tail })
    fun s => .ret s.freelist.head?

/-- Put the page `g`, which `kalloc` has returned, on the free list. -/
def kfree (g : Nat) : K Unit := write fun s => { s with freelist := g :: s.freelist }

/-- One end of a pipe is closed. -/
def Pipe.close (writable : Bool) (p : Pipe) : Pipe :=
  if writable then { p with writeopen := false } else { p with readopen := false }

/-- Close one end of the pipe in page `g`, and free the page with the second one. -/
def pipeclose (g : Nat) (writable : Bool) : K Unit := do
  let p ← .act .tau (fun _ => true) (fun s => s.setPipe g (Pipe.close writable))
    fun s => .ret ((s.pipe g).close writable)
  K.when (p.readopen = false ∧ p.writeopen = false) (kfree g)

/-- Close file `f`. -/
def fileclose (f : Nat) : K Unit := do
  match ← fileput f with
  | none => pure ()
  | some ff =>
    if ff.type = .pipe then pipeclose ff.pipe ff.writable
    else
      K.when (ff.type = .inode) do
        beginTrans
        iput ff.ip
        commitTrans

/-- Get metadata about file `f`. -/
def filestat (f : Nat) : K (Option Inode) := do
  let fl ← read fun s => s.file f
  if fl.type = .inode then
    ilock fl.ip
    let ip ← read fun s => s.inode fl.ip
    iunlock fl.ip
    pure (some ip)
  else
    pure none

/-- The largest chunk `filewrite` writes in one transaction. -/
def writeMax : Nat := ((LOGSIZE - 1 - 1 - 2) / 2) * 512

/-- The calls that `fileread` and `filewrite` make on a file with an inode. -/
structure FileOps (ℓ σ ε : Type) where
  beginTrans : Prog ℓ σ ε Unit
  commitTrans : Prog ℓ σ ε Unit
  ilock : Prog ℓ σ ε Unit
  iunlock : Prog ℓ σ ε Unit
  off : Prog ℓ σ ε Nat
  /-- `if(r > 0) f->off += r`. -/
  addOff : Int → Prog ℓ σ ε Unit
  writei : Nat → List Byte → Prog ℓ σ ε Int
  shortFilewrite : ε

namespace FileOps

variable {ℓ σ ε : Type} (ops : FileOps ℓ σ ε)

/-- `fileread` of an inode: the result and the bytes stored at `addr`. -/
def fileread (readi : Nat → Nat → Prog ℓ σ ε (Int × List Byte)) (n : Int) :
    Prog ℓ σ ε (Int × List Byte) := do
  ops.ilock
  let off ← ops.off
  let (r, bytes) ← readi off (BitVec.ofInt 32 n).toNat
  ops.addOff r
  ops.iunlock
  pure (r, bytes)

/-- The loop of `filewrite`; the result says whether all of `src` was written. -/
def filewriteLoop (src : List Byte) : Nat → Prog ℓ σ ε Bool
  | 0 => pure true
  | fuel + 1 =>
    if src.length = 0 then pure true
    else do
      let n1 := min src.length writeMax
      ops.beginTrans
      ops.ilock
      let off ← ops.off
      let r ← ops.writei off (src.take n1)
      ops.addOff r
      ops.iunlock
      ops.commitTrans
      if r < 0 then pure false
      else if r ≠ n1 then .panic ops.shortFilewrite
      else filewriteLoop (src.drop n1) fuel

/-- `filewrite` to an inode of the `n` bytes `src`; for `n ≤ 0` the loop is not entered. -/
def filewrite (n : Int) (src : List Byte) : Prog ℓ σ ε Int := do
  let all ← ops.filewriteLoop src src.length
  pure (if all ∧ 0 ≤ n then n else -1)

end FileOps

/-- The calls on file `f` with inode `k`. -/
def fileOps (f k : Nat) : FileOps Label State Panic where
  beginTrans := beginTrans
  commitTrans := commitTrans
  ilock := ilock k
  iunlock := iunlock k
  off := read fun s => (s.file f).off
  addOff r := K.when (0 < r) do
    write fun s => s.setFile f fun fl => { fl with off := (fl.off + r.toNat) % 2 ^ 32 }
  writei := writei k
  shortFilewrite := .shortFilewrite

/-- Read from file `f` as process `p`. -/
def fileread (p f : Nat) (n : Int) : K (Int × List Byte) := do
  let fl ← read fun s => s.file f
  if !fl.readable then pure (-1, [])
  else if fl.type = .pipe then pure (0, [])
  else if fl.type = .inode then (fileOps f fl.ip).fileread (readi p fl.ip) n
  else .panic .fileread

/-- Write the `n` bytes `src` to file `f`. -/
def filewrite (f : Nat) (n : Int) (src : List Byte) : K Int := do
  let fl ← read fun s => s.file f
  if !fl.writable then pure (-1)
  else if fl.type = .pipe then pure src.length
  else if fl.type = .inode then (fileOps f fl.ip).filewrite n src
  else .panic .filewrite

end Xv6
