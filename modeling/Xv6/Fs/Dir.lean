import Xv6.Fs.Content

/-!
# Directories and paths
-/

namespace Xv6

open Lib

/-- A C string as an array of characters. -/
def cstr (l : List Byte) : Bytes := fun i => l.getD i 0

/-- `strncmp` of two strings from index `i` on. -/
def strncmp (p q : Bytes) (i : Nat) : Nat → Int
  | 0 => 0
  | n + 1 =>
    if p i ≠ 0 ∧ p i = q i then strncmp p q (i + 1) n
    else ((p i).toNat : Int) - (q i).toNat

/-- `strncpy`: the `n` characters it stores, given the source from index `i` on. -/
def strncpy (t : Bytes) (i : Nat) : Nat → List Byte
  | 0 => []
  | n + 1 => if t i = 0 then List.replicate (n + 1) 0 else t i :: strncpy t (i + 1) n

def namecmp (s t : Bytes) : Int := strncmp s t 0 DIRSIZ

/-- `de.inum` in the bytes of a `struct dirent`. -/
def direntInum (de : List Byte) : Nat := (cstr de).le 0 2

/-- `de.name` in the bytes of a `struct dirent`. -/
def direntName (de : List Byte) : Bytes := fun i => cstr de (2 + i)

/-- The bytes of a `struct dirent`. -/
def mkDirent (inum : Nat) (name : List Byte) : List Byte :=
  [BitVec.ofNat 8 inum, BitVec.ofNat 8 (inum / 256)] ++ strncpy (cstr name) 0 DIRSIZ

/-- `readi` of the directory entry at offset `off`, which must succeed. -/
def readDirent (k off : Nat) (e : Panic) : K (List Byte) := do
  let (r, de) ← readi 0 k off DIRENTSIZE
  if r = DIRENTSIZE then pure de else .panic e

/-- The loop of `dirlookup`. -/
def dirlookupLoop (k : Nat) (name : List Byte) (off : Nat) : Nat → K (Option (Nat × Nat))
  | 0 => pure none
  | fuel + 1 => do
    let dp ← read fun s => s.inode k
    if off < dp.size then
      let de ← readDirent k off .dirlinkRead
      if direntInum de ≠ 0 ∧ namecmp (cstr name) (direntName de) = 0 then
        let ip ← iget dp.dev (direntInum de)
        pure (some (ip, off))
      else dirlookupLoop k name (off + DIRENTSIZE) fuel
    else pure none

/-- Look for a directory entry in a directory: the inode and the byte offset of the entry. -/
def dirlookup (k : Nat) (name : List Byte) : K (Option (Nat × Nat)) := do
  let dp ← read fun s => s.inode k
  if dp.type ≠ T_DIR then .panic .dirlookupNotDir
  else dirlookupLoop k name 0 (dp.size + 1)

/-- The search of `dirlink` for an empty entry. -/
def dirlinkLoop (k off : Nat) : Nat → K Nat
  | 0 => pure off
  | fuel + 1 => do
    let dp ← read fun s => s.inode k
    if off < dp.size then
      let de ← readDirent k off .dirlinkRead
      if direntInum de = 0 then pure off else dirlinkLoop k (off + DIRENTSIZE) fuel
    else pure off

/-- Write a new directory entry (`name`, `inum`) into the directory `k`. -/
def dirlink (k : Nat) (name : List Byte) (inum : Nat) : K Int := do
  match ← dirlookup k name with
  | some (ip, _) =>
    iput ip
    pure (-1)
  | none =>
    let size ← read fun s => (s.inode k).size
    let off ← dirlinkLoop k 0 (size + 1)
    let r ← writei k off (mkDirent inum name)
    if r = DIRENTSIZE then pure 0 else .panic .dirlink

/-- The character `/`. -/
def slash : Byte := 47

/-- Copy the next path element from `path`: the rest of the path and the element. -/
def skipelem (path : List Byte) : Option (List Byte × List Byte) :=
  match path.dropWhile (· = slash) with
  | [] => none
  | path =>
    some ((path.dropWhile (· ≠ slash)).dropWhile (· = slash),
      (path.takeWhile (· ≠ slash)).take DIRSIZ)

/-- The loop of `namex` from inode `k` on; the result has the last element copied to `name`. -/
def namexLoop (nameiparent : Bool) (k : Nat) (path name : List Byte) :
    Nat → K (Option (Nat × List Byte))
  | 0 => pure none
  | fuel + 1 =>
    match skipelem path with
    | some (path, name) => do
      ilock k
      let ip ← read fun s => s.inode k
      if ip.type ≠ T_DIR then
        iunlockput k
        pure none
      else if nameiparent && path.isEmpty then
        -- Stop one level early.
        iunlock k
        pure (some (k, name))
      else
        match ← dirlookup k name with
        | none =>
          iunlockput k
          pure none
        | some (next, _) =>
          iunlockput k
          namexLoop nameiparent next path name fuel
    | none =>
      if nameiparent then do
        iput k
        pure none
      else
        pure (some (k, name))

/-- Look up the inode for a path name, or for its parent, as process `p`. -/
def namex (p : Nat) (path : List Byte) (nameiparent : Bool) : K (Option (Nat × List Byte)) := do
  if path.head? = some slash then
    let k ← iget ROOTDEV ROOTINO
    namexLoop nameiparent k path [] (path.length + 1)
  else
    match ← read fun s => (s.proc p).cwd with
    | none => .panic .nullInode
    | some cwd =>
      let k ← idup cwd
      namexLoop nameiparent k path [] (path.length + 1)

def namei (p : Nat) (path : List Byte) : K (Option Nat) := do
  let r ← namex p path false
  pure (r.map Prod.fst)

def nameiparent (p : Nat) (path : List Byte) : K (Option (Nat × List Byte)) := namex p path true

end Xv6
