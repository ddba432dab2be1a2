import Xv6.Fs.State

/-!
# Blocks and the log, as the file system code uses them

`bread` and the interface of `log.c`. The blocks of the log area are sectors like any other:
`log_write` copies the block into its slot of the log, and `install_trans` copies it home again.
-/

namespace Xv6

open Lib

/-- `bread`, with the checks of `memide.c`'s `iderw`; the buffer's data is the result. -/
def bread (dev b : Nat) : K Bytes :=
  .act .tau (fun _ => true) id fun s =>
    if dev ≠ ROOTDEV then .panic .ideNotDisk1
    else if s.disksize ≤ b then .panic .ideSectorOutOfRange
    else .ret (s.sector b)

/-- The super block. -/
structure Superblock where
  size : Nat
  nblocks : Nat
  ninodes : Nat
  nlog : Nat
  deriving DecidableEq, Repr

/-- The super block in the bytes of its sector. -/
def getSuperblock (b : Bytes) : Superblock where
  size := b.le 0 4
  nblocks := b.le 4 4
  ninodes := b.le 8 4
  nlog := b.le 12 4

/-- Read the super block. -/
def readsb (dev : Nat) : K Superblock := do
  let bp ← bread dev 1
  pure (getSuperblock bp)

/-- `begin_trans`: wait until no transaction is active, then start one. -/
def beginTrans : K Unit :=
  .act .beginTrans (fun s => !s.log.busy)
    (fun s => { s with log := { s.log with busy := true } }) fun _ => .ret ()

/-- The header block as `write_head` leaves it: `n` and the first `n` sector numbers. -/
def putHead (lh : List Nat) (b : Bytes) : Bytes :=
  (lh.zipIdx.foldl (fun b p => b.putLe (4 + 4 * p.2) 4 p.1) (b.putLe 0 4 lh.length))

/-- `write_head`. -/
def writeHead (s : State) : State :=
  { s with sector := upd s.sector s.log.start (putHead s.log.lh (s.sector s.log.start)) }

/-- `install_trans`: copy the blocks of the log, from slot `tail` on, to their home sectors. -/
def installTrans : List Nat → Nat → State → State
  | [], _, s => s
  | b :: lh, tail, s =>
    installTrans lh (tail + 1)
      { s with sector := upd s.sector b (s.sector (s.log.start + tail + 1)) }

/-- The disk work of `commit_trans`. -/
def commit (s : State) : State :=
  if s.log.lh = [] then s
  else
    let s := writeHead s
    let s := installTrans s.log.lh 0 s
    writeHead { s with log := { s.log with lh := [] } }

/-- `commit_trans`. -/
def commitTrans : K Unit :=
  .act .commitTrans (fun _ => true)
    (fun s => { commit s with log := { (commit s).log with busy := false } }) fun _ => .ret ()

/-- `log_write`'s first test. -/
def State.logFull (s : State) : Bool :=
  decide (LOGSIZE ≤ s.log.lh.length ∨ s.log.size - 1 ≤ s.log.lh.length)

/-- The slot `log_write` uses for block `b`: its old one, or the next free one. -/
def logSlot (lh : List Nat) (b : Nat) : Nat := lh.idxOf b

/-- The state after `log_write` of block `b` with contents `data`. -/
def State.logged (s : State) (b : Nat) (data : Bytes) : State :=
  { s with
    sector := upd (upd s.sector b data) (s.log.start + logSlot s.log.lh b + 1) data
    log := { s.log with lh := if b ∈ s.log.lh then s.log.lh else s.log.lh ++ [b] } }

/-- `log_write` of a buffer of block `b` whose data the caller has set to `data`. -/
def logWrite (b : Nat) (data : Bytes) : K Unit :=
  .act (.logWrite b) (fun _ => true)
    (fun s => if s.logFull || !s.log.busy then s else s.logged b data)
    fun s =>
      if s.logFull then .panic .tooBigATransaction
      else if !s.log.busy then .panic .writeOutsideOfTrans
      else .ret ()

end Xv6
