import Xv6.Fs.Inode

/-!
# Inode content: `readi` and `writei`
-/

namespace Xv6

open Lib

/-- A `uint` returned as an `int`. -/
def int32 (n : Nat) : Int := (BitVec.ofNat 32 n).toInt

/-- `devsw[ip->major].read` and `.write` exist: only the console's are set. -/
def hasDev (ip : Inode) : Bool :=
  decide (0 ≤ ip.major.toInt ∧ ip.major.toInt < NDEV ∧ ip.major.toInt = CONSOLE)

/-- The loop of `consoleread`, with `n` more characters to store of the `target` asked for:
whether the process was killed while it waited, and the characters stored at `dst`. -/
def consolereadLoop (p target : Nat) : Nat → K (Bool × List Byte)
  | 0 => pure (false, [])
  | n + 1 => do
    let c ← .act .tau (fun s => !s.input.isEmpty || (s.proc p).killed)
      (fun s => match s.input with
        | [] => s
        -- ^D is kept for the next call when it follows data
        | c :: cs => if c = 4 ∧ n + 1 < target then s else { s with input := cs })
      fun s => .ret s.input.head?
    match c with
    | none => pure (true, [])
    | some c =>
      if c = 4 then pure (false, [])
      else if c = 10 then pure (false, [c])
      else
        let (killed, cs) ← consolereadLoop p target n
        pure (killed, c :: cs)

/-- `consoleread`: the result and the characters stored at `dst`. -/
def consoleread (p k : Nat) (n : Int) : K (Int × List Byte) := do
  iunlock k
  let (killed, cs) ← consolereadLoop p n.toNat n.toNat
  ilock k
  pure (if killed then -1 else cs.length, cs)

/-- `consolewrite`. -/
def consolewrite (k : Nat) (n : Int) : K Int := do
  iunlock k
  ilock k
  pure n

/-- The length `readi` reads, or `none` when it returns `-1`. -/
def readiLen (size off n : Nat) : Option Nat :=
  if size < off ∨ (off + n) % 2 ^ 32 < off then none
  else if size < (off + n) % 2 ^ 32 then some (size - off)
  else some n

/-- The loop of `readi`: `n` more bytes from offset `off` on. -/
def readiLoop (k off n : Nat) : Nat → K (List Byte)
  | 0 => pure []
  | fuel + 1 =>
    if n = 0 then pure []
    else do
      let dev ← read fun s => (s.inode k).dev
      let addr ← bmap k (off / BSIZE)
      let bp ← bread dev addr
      let m := min n (BSIZE - off % BSIZE)
      let rest ← readiLoop k (off + m) (n - m) fuel
      pure (bp.slice (off % BSIZE) m ++ rest)

/-- Read data from inode: the result and the bytes stored at `dst`. -/
def readi (p k off n : Nat) : K (Int × List Byte) := do
  let ip ← read fun s => s.inode k
  if ip.type = T_DEV then
    if hasDev ip then consoleread p k (int32 n) else pure (-1, [])
  else
    match readiLen ip.size off n with
    | none => pure (-1, [])
    | some n =>
      let bytes ← readiLoop k off n n
      pure (int32 n, bytes)

/-- The loop of `writei`: the bytes `src` to offset `off`. -/
def writeiLoop (k off : Nat) (src : List Byte) : Nat → K Unit
  | 0 => pure ()
  | fuel + 1 =>
    if src.length = 0 then pure ()
    else do
      let dev ← read fun s => (s.inode k).dev
      let addr ← bmap k (off / BSIZE)
      let bp ← bread dev addr
      let m := min src.length (BSIZE - off % BSIZE)
      logWrite addr (bp.splice (off % BSIZE) (src.take m))
      writeiLoop k (off + m) (src.drop m) fuel

/-- Write data to inode. -/
def writei (k off : Nat) (src : List Byte) : K Int := do
  let ip ← read fun s => s.inode k
  let n := src.length
  if ip.type = T_DEV then
    if hasDev ip then consolewrite k (int32 n) else pure (-1)
  else if ip.size < off ∨ (off + n) % 2 ^ 32 < off then pure (-1)
  else if MAXFILE * BSIZE < (off + n) % 2 ^ 32 then pure (-1)
  else
    writeiLoop k off src n
    let size ← read fun s => (s.inode k).size
    K.when (0 < n ∧ size < off + n) do
      write fun s => s.setInode k fun ip => { ip with size := off + n }
      iupdate k
    pure (int32 n)

end Xv6
