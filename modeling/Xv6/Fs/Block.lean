import Xv6.Fs.Log

/-!
# Disk blocks: `bzero`, `balloc`, `bfree`
-/

namespace Xv6

open Lib

/-- `(data[bi/8] & (1 << bi%8)) != 0` in a bitmap block. -/
def bitSet (b : Bytes) (bi : Nat) : Bool := (b (bi / 8) &&& (1#8 <<< (bi % 8))) != 0#8

/-- `data[bi/8] |= 1 << bi%8`. -/
def setBit (b : Bytes) (bi : Nat) : Bytes := upd b (bi / 8) (b (bi / 8) ||| (1#8 <<< (bi % 8)))

/-- `data[bi/8] &= ~(1 << bi%8)`. -/
def clearBit (b : Bytes) (bi : Nat) : Bytes := upd b (bi / 8) (b (bi / 8) &&& ~~~(1#8 <<< (bi % 8)))

/-- Zero a block. -/
def bzero (dev bno : Nat) : K Unit := do
  let bp ← bread dev bno
  logWrite bno (bp.zero 0 BSIZE)

/-- The inner loop of `balloc`: the first clear bit from `bi` on, `n` bits at most. -/
def freeBit (bp : Bytes) (bi : Nat) : Nat → Option Nat
  | 0 => none
  | n + 1 => if bitSet bp bi then freeBit bp (bi + 1) n else some bi

/-- The outer loop of `balloc`, from bit `b` on over `n` bitmap blocks. -/
def ballocLoop (dev : Nat) (sb : Superblock) (b : Nat) : Nat → K Nat
  | 0 => .panic .ballocOutOfBlocks
  | n + 1 => do
    let bp ← bread dev (BBLOCK b sb.ninodes)
    match freeBit bp 0 (min BPB (sb.size - b)) with
    | some bi =>
      logWrite (BBLOCK b sb.ninodes) (setBit bp bi)
      bzero dev (b + bi)
      pure (b + bi)
    | none => ballocLoop dev sb (b + BPB) n

/-- Allocate a zeroed disk block. -/
def balloc (dev : Nat) : K Nat := do
  let sb ← readsb dev
  ballocLoop dev sb 0 ((sb.size + BPB - 1) / BPB)

/-- Free a disk block. -/
def bfree (dev b : Nat) : K Unit := do
  let sb ← readsb dev
  let bp ← bread dev (BBLOCK b sb.ninodes)
  if bitSet bp (b % BPB) then
    logWrite (BBLOCK b sb.ninodes) (clearBit bp (b % BPB))
  else
    .panic .freeingFreeBlock

end Xv6
