import Xv6.Fs.Block

/-!
# Inodes

`fs.c` from `ialloc` to `writei`: the inode cache, the block map and the contents of an inode.
-/

namespace Xv6

open Lib

/-- On-disk inode structure. -/
structure Dinode where
  type : BitVec 16
  major : BitVec 16
  minor : BitVec 16
  nlink : BitVec 16
  size : Nat
  addrs : Nat → Nat

/-- The inode at index `j` of an inode block. -/
def getDinode (b : Bytes) (j : Nat) : Dinode where
  type := BitVec.ofNat 16 (b.le (DINODESIZE * j) 2)
  major := BitVec.ofNat 16 (b.le (DINODESIZE * j + 2) 2)
  minor := BitVec.ofNat 16 (b.le (DINODESIZE * j + 4) 2)
  nlink := BitVec.ofNat 16 (b.le (DINODESIZE * j + 6) 2)
  size := b.le (DINODESIZE * j + 8) 4
  addrs i := b.le (DINODESIZE * j + 12 + 4 * i) 4

/-- `memmove` of the first `n` words of `addrs` into the inode at index `j` of a block. -/
def putAddrs (b : Bytes) (j : Nat) (addrs : Nat → Nat) : Nat → Bytes
  | 0 => b
  | n + 1 => (putAddrs b j addrs n).putLe (DINODESIZE * j + 12 + 4 * n) 4 (addrs n)

/-- The stores of `iupdate` into the inode at index `j` of its block. `sizeof(ip->addrs)` is
`NDIRECT+1` words, so the last address of the disk inode is not written. -/
def putDinode (b : Bytes) (j : Nat) (ip : Inode) : Bytes :=
  let b := b.putLe (DINODESIZE * j) 2 ip.type.toNat
  let b := b.putLe (DINODESIZE * j + 2) 2 ip.major.toNat
  let b := b.putLe (DINODESIZE * j + 4) 2 ip.minor.toNat
  let b := b.putLe (DINODESIZE * j + 6) 2 ip.nlink.toNat
  let b := b.putLe (DINODESIZE * j + 8) 4 ip.size
  putAddrs b j ip.addrs (NDIRECT + 1)

/-- Copy a modified in-memory inode to disk. -/
def iupdate (k : Nat) : K Unit := do
  let ip ← read fun s => s.inode k
  let bp ← bread ip.dev (IBLOCK ip.inum)
  logWrite (IBLOCK ip.inum) (putDinode bp (ip.inum % IPB) ip)

/-- The first index below `n`, from `i` on, with property `p`. -/
def findFrom (p : Nat → Bool) (i : Nat) : Nat → Option Nat
  | 0 => none
  | n + 1 => if p i then some i else findFrom p (i + 1) n

/-- The slot `iget` finds cached, and else the empty slot it recycles. -/
def igetSlot (ic : Nat → Inode) (dev inum : Nat) : Option Nat × Option Nat :=
  (findFrom (fun k => decide (0 < (ic k).ref ∧ (ic k).dev = dev ∧ (ic k).inum = inum)) 0 NINODE,
    findFrom (fun k => decide ((ic k).ref = 0)) 0 NINODE)

/-- Find the inode with number `inum` on device `dev` and return its slot in the cache. -/
def iget (dev inum : Nat) : K Nat :=
  .act .tau (fun _ => true)
    (fun s => match igetSlot s.inode dev inum with
      | (some k, _) => s.setInode k fun ip => { ip with ref := ip.ref + 1 }
      | (none, some k) => s.setInode k fun ip =>
          { ip with dev := dev, inum := inum, ref := 1, busy := false, valid := false }
      | (none, none) => s)
    fun s => match igetSlot s.inode dev inum with
      | (some k, _) => .ret k
      | (none, some k) => .ret k
      | (none, none) => .panic .igetNoInodes

/-- Increment the reference count of slot `k`. -/
def idup (k : Nat) : K Nat := do
  write fun s => s.setInode k fun ip => { ip with ref := ip.ref + 1 }
  pure k

/-- The loop of `ialloc` over the inode numbers `inum`, `inum+1`, …, `n` of them. -/
def iallocLoop (dev : Nat) (type : BitVec 16) (inum : Nat) : Nat → K Nat
  | 0 => .panic .iallocNoInodes
  | n + 1 => do
    let bp ← bread dev (IBLOCK inum)
    let j := inum % IPB
    if (getDinode bp j).type = 0 then
      logWrite (IBLOCK inum)
        ((bp.zero (DINODESIZE * j) DINODESIZE).putLe (DINODESIZE * j) 2 type.toNat)
      iget dev inum
    else
      iallocLoop dev type (inum + 1) n

/-- Allocate a new inode with the given type on device `dev`. -/
def ialloc (dev : Nat) (type : BitVec 16) : K Nat := do
  let sb ← readsb dev
  iallocLoop dev type 1 (sb.ninodes - 1)

/-- The fields `ilock` copies from the disk inode; `sizeof(ip->addrs)` is `NDIRECT+1` words. -/
def Inode.load (ip : Inode) (d : Dinode) : Inode :=
  { ip with
    valid := true
    type := d.type
    major := d.major
    minor := d.minor
    nlink := d.nlink
    size := d.size
    addrs := fun i => if i < NDIRECT + 1 then d.addrs i else ip.addrs i }

/-- Lock the given inode, and read it from disk if necessary. -/
def ilock (k : Nat) : K Unit := do
  let ref ← read fun s => (s.inode k).ref
  if ref < 1 then .panic .ilock
  else
    .act .tau (fun s => !(s.inode k).busy)
      (fun s => s.setInode k fun ip => { ip with busy := true }) fun _ => .ret ()
    let ip ← read fun s => s.inode k
    K.when (ip.valid = false) do
      let bp ← bread ip.dev (IBLOCK ip.inum)
      let d := getDinode bp (ip.inum % IPB)
      write fun s => s.setInode k fun ip => ip.load d
      K.when (d.type = 0) (.panic .ilockNoType)

/-- Unlock the given inode. -/
def iunlock (k : Nat) : K Unit := do
  let ip ← read fun s => s.inode k
  if !ip.busy || ip.ref < 1 then .panic .iunlock
  else write fun s => s.setInode k fun ip => { ip with busy := false }

/-- The stores of `bmap` and `itrunc` into `ip->addrs[i]`. -/
def setAddr (k i v : Nat) : K Unit := write fun s => { s with inode := addrsSet s.inode k i v }

/-- The test `addr == 0` of `bmap`, in the open: `zero` says that a block is missing. -/
def bmapTest (addr : Nat) : K Unit := .modify (.bmapTest (addr == 0)) id

/-- Look up entry `i` of the pointer block `b`, allocating the entry if it is empty. -/
def bmapEntry (dev b i : Nat) : K Nat := do
  let bp ← bread dev b
  let addr := bp.le (4 * i) 4
  bmapTest addr
  if addr = 0 then
    let addr ← balloc dev
    logWrite b (bp.putLe (4 * i) 4 addr)
    pure addr
  else
    pure addr

/-- Look up `ip->addrs[i]`, allocating the block if there is none. -/
def bmapAddr (k i : Nat) : K Nat := do
  let dev ← read fun s => (s.inode k).dev
  let addr ← read fun s => addrsGet s.inode k i
  bmapTest addr
  if addr = 0 then
    let addr ← balloc dev
    setAddr k i addr
    pure addr
  else
    pure addr

/-- Return the disk block address of the `bn`th block in inode `k`, allocating it if there is no
such block. -/
def bmap (k bn : Nat) : K Nat := do
  let dev ← read fun s => (s.inode k).dev
  if bn < NDIRECT then
    bmapAddr k bn
  else if bn - NDIRECT < NINDIRECT then
    let addr ← bmapAddr k NDIRECT
    bmapEntry dev addr (bn - NDIRECT)
  else if bn - NDIRECT - NINDIRECT < NINDIRECT * NINDIRECT then
    let addr ← bmapAddr k (NDIRECT + 1)
    let addr ← bmapEntry dev addr ((bn - NDIRECT - NINDIRECT) / NINDIRECT)
    bmapEntry dev addr ((bn - NDIRECT - NINDIRECT) % NINDIRECT)
  else
    .panic .bmapOutOfRange

/-- The loop of `itrunc` over the direct blocks `i`, `i+1`, …, `n` of them. -/
def itruncDirect (k i : Nat) : Nat → K Unit
  | 0 => pure ()
  | n + 1 => do
    let dev ← read fun s => (s.inode k).dev
    let addr ← read fun s => addrsGet s.inode k i
    if addr = 0 then itruncDirect k (i + 1) n
    else
      bfree dev addr
      setAddr k i 0
      itruncDirect k (i + 1) n

/-- The loop of `itrunc` over the entries `j`, `j+1`, … of the indirect block, `n` of them. -/
def itruncEntries (dev : Nat) (bp : Bytes) (j : Nat) : Nat → K Unit
  | 0 => pure ()
  | n + 1 => do
    if bp.le (4 * j) 4 = 0 then itruncEntries dev bp (j + 1) n
    else
      bfree dev (bp.le (4 * j) 4)
      itruncEntries dev bp (j + 1) n

/-- Truncate inode (discard contents). -/
def itrunc (k : Nat) : K Unit := do
  itruncDirect k 0 NDIRECT
  let dev ← read fun s => (s.inode k).dev
  let addr ← read fun s => addrsGet s.inode k NDIRECT
  K.when (addr ≠ 0) do
    let bp ← bread dev addr
    itruncEntries dev bp 0 NINDIRECT
    bfree dev addr
    setAddr k NDIRECT 0
  write fun s => s.setInode k fun ip => { ip with size := 0 }
  iupdate k

/-- The test of `iput`: the last reference to an inode that has no links. -/
def Inode.lastUnlinked (ip : Inode) : Bool := decide (ip.ref = 1 ∧ ip.valid = true ∧ ip.nlink = 0)

/-- Drop a reference to an in-memory inode. If that was the last reference and the inode has no
links to it, free the inode (and its content) on disk. -/
def iput (k : Nat) : K Unit := do
  let last ← .act (.iput k) (fun _ => true)
    (fun s => s.setInode k fun ip =>
      if ip.lastUnlinked then { ip with busy := true } else { ip with ref := ip.ref - 1 })
    fun s =>
      if (s.inode k).lastUnlinked && (s.inode k).busy then .panic .iputBusy
      else .ret (s.inode k).lastUnlinked
  K.when (last = true) do
    itrunc k
    write fun s => s.setInode k fun ip => { ip with type := 0 }
    iupdate k
    write fun s => s.setInode k fun ip =>
      { ip with busy := false, valid := false, ref := ip.ref - 1 }

/-- Common idiom: unlock, then put. -/
def iunlockput (k : Nat) : K Unit := do
  iunlock k
  iput k

end Xv6
