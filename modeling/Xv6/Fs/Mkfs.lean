import Xv6.Fs.Sysfile

/-!
# `mkfs`, and the state after boot on its image

`mkfs.c` from `main` down. A failed `assert`, and an index past the end of the array `indirect`,
end without an image (`none`).
-/

namespace Xv6

namespace Mkfs

open Lib

def nblocks : Nat := 40911
def nlog : Nat := LOGSIZE
def ninodes : Nat := 200
def size : Nat := 40960

/-- The image and the counters of `mkfs`. -/
structure Image where
  sect : Nat → Bytes
  freeblock : Nat
  usedblocks : Nat
  freeinode : Nat

def bitblocks : Nat := size / (512 * 8) + 1

def i2b (inum : Nat) : Nat := inum / IPB + 2

def wsect (img : Image) (sec : Nat) (b : Bytes) : Image := { img with sect := upd img.sect sec b }

/-- `*dip = *ip` for the inode at index `j` of a block. -/
def storeDinode (b : Bytes) (j : Nat) (d : Dinode) : Bytes :=
  let b := b.putLe (DINODESIZE * j) 2 d.type.toNat
  let b := b.putLe (DINODESIZE * j + 2) 2 d.major.toNat
  let b := b.putLe (DINODESIZE * j + 4) 2 d.minor.toNat
  let b := b.putLe (DINODESIZE * j + 6) 2 d.nlink.toNat
  let b := b.putLe (DINODESIZE * j + 8) 4 d.size
  putAddrs b j d.addrs (NDIRECT + 2)

def winode (img : Image) (inum : Nat) (d : Dinode) : Image :=
  wsect img (i2b inum) (storeDinode (img.sect (i2b inum)) (inum % IPB) d)

def rinode (img : Image) (inum : Nat) : Dinode := getDinode (img.sect (i2b inum)) (inum % IPB)

def ialloc (img : Image) (type : BitVec 16) : Nat × Image :=
  (img.freeinode,
    winode { img with freeinode := img.freeinode + 1 } img.freeinode
      { type := type, major := 0, minor := 0, nlink := 1, size := 0, addrs := fun _ => 0 })

/-- A block of zeroes. -/
def zeroes : Bytes := fun _ => 0

/-- `balloc`: mark the first `used` blocks in the first bitmap block. -/
def balloc (img : Image) (used : Nat) : Option Image :=
  if used < 512 * 8 then
    some (wsect img (ninodes / IPB + 3) ((List.range used).foldl setBit zeroes))
  else none

/-- Take the next free block. -/
def take (img : Image) : Nat × Image :=
  (img.freeblock, { img with freeblock := img.freeblock + 1, usedblocks := img.usedblocks + 1 })

/-- The block of `iappend` for file block `fbn`, allocated if there is none. -/
def iappendBlock (img : Image) (din : Dinode) (fbn : Nat) : Option (Nat × Dinode × Image) :=
  if MAXFILE ≤ fbn then none
  else if fbn < NDIRECT then
    if din.addrs fbn = 0 then
      let (x, img) := take img
      some (x, { din with addrs := upd din.addrs fbn x }, img)
    else some (din.addrs fbn, din, img)
  else if NINDIRECT ≤ fbn - NDIRECT then none
  else
    let (ind, din, img) :=
      if din.addrs NDIRECT = 0 then
        let (x, img) := take img
        (x, { din with addrs := upd din.addrs NDIRECT x }, img)
      else (din.addrs NDIRECT, din, img)
    let x := (img.sect ind).le (4 * (fbn - NDIRECT)) 4
    if x = 0 then
      let (x, img) := take img
      some (x, din, wsect img ind ((img.sect ind).putLe (4 * (fbn - NDIRECT)) 4 x))
    else some (x, din, img)

/-- The loop of `iappend`: append `xp` at offset `off`. -/
def iappendLoop (img : Image) (din : Dinode) (off : Nat) (xp : List Byte) :
    Nat → Option (Dinode × Nat × Image)
  | 0 => some (din, off, img)
  | fuel + 1 =>
    if xp.length = 0 then some (din, off, img)
    else
      let fbn := off / 512
      match iappendBlock img din fbn with
      | none => none
      | some (x, din, img) =>
        let n1 := min xp.length ((fbn + 1) * 512 - off)
        let img := wsect img x ((img.sect x).splice (off - fbn * 512) (xp.take n1))
        iappendLoop img din (off + n1) (xp.drop n1) fuel

def iappend (img : Image) (inum : Nat) (xp : List Byte) : Option Image :=
  let din := rinode img inum
  match iappendLoop img din din.size xp xp.length with
  | none => none
  | some (din, off, img) => some (winode img inum { din with size := off })

/-- The loop of `main` that reads one host file, 512 bytes at a time. -/
def copyFile (img : Image) (inum : Nat) (data : List Byte) : Nat → Option Image
  | 0 => some img
  | fuel + 1 =>
    if data.length = 0 then some img
    else
      match iappend img inum (data.take 512) with
      | none => none
      | some img => copyFile img inum (data.drop 512) fuel

/-- A host file: its name as given on the command line, and its bytes. -/
structure HostFile where
  name : List Byte
  data : List Byte

/-- The name of a host file in the image: a leading `_` is skipped. -/
def HostFile.imgName (f : HostFile) : List Byte :=
  if f.name.head? = some 95 then f.name.tail else f.name

/-- One turn of the loop of `main` over its arguments. -/
def addFile (img : Image) (f : HostFile) : Option Image :=
  if slash ∈ f.name then none
  else
    let (inum, img) := ialloc img T_FILE
    match iappend img ROOTINO (mkDirent inum f.imgName) with
    | none => none
    | some img => copyFile img inum f.data f.data.length

def addFiles (img : Image) : List HostFile → Option Image
  | [] => some img
  | f :: fs =>
    match addFile img f with
    | none => none
    | some img => addFiles img fs

/-- The empty image with the super block. -/
def blank : Image where
  sect := upd (fun _ => zeroes) 1
    ((((zeroes.putLe 0 4 size).putLe 4 4 nblocks).putLe 8 4 ninodes).putLe 12 4 nlog)
  freeblock := ninodes / IPB + 3 + bitblocks
  usedblocks := ninodes / IPB + 3 + bitblocks
  freeinode := 1

/-- The root directory with its entries "." and "..". -/
def root : Option Image :=
  let (rootino, img) := ialloc blank T_DIR
  match iappend img rootino (mkDirent rootino dot) with
  | none => none
  | some img => iappend img rootino (mkDirent rootino dotdot)

/-- `main`: the image of `mkfs` for the given host files. -/
def main (files : List HostFile) : Option Image :=
  match root with
  | none => none
  | some img =>
    match addFiles img files with
    | none => none
    | some img =>
      -- fix size of root inode dir
      let din := rinode img ROOTINO
      let img := winode img ROOTINO { din with size := (din.size / BSIZE + 1) * BSIZE }
      balloc img img.usedblocks

end Mkfs

/-- The state after boot: `initlog` has found the log of the disk, and process 0 has its current
directory at the root. -/
def boot (sect : Nat → Lib.Bytes) : State :=
  let sb := getSuperblock (sect 1)
  { disksize := sb.size
    sector := sect
    log := { start := sb.size - sb.nlog, size := sb.nlog, busy := false, lh := [] }
    inode := Lib.upd (fun _ => {}) 0 { dev := ROOTDEV, inum := ROOTINO, ref := 1 }
    file := fun _ => {}
    proc := Lib.upd (fun _ => {}) 0 { cwd := some 0 }
    input := [] }

/-- Only the entry of the root directory is in use. -/
lemma boot_inode_ne {sect : Nat → Lib.Bytes} {k : Nat} (hk : k ≠ 0) : (boot sect).inode k = {} := by
  simp only [boot, Lib.upd_ne hk]

end Xv6
