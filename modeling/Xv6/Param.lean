import Mathlib.Algebra.BigOperators.Fin

/-!
# Constants of `param.h`, `fs.h`, `stat.h`, `fcntl.h` and `memlayout.h`
-/

namespace Xv6

@[simp] def NPROC : Nat := 64
@[simp] def NOFILE : Nat := 16
@[simp] def NFILE : Nat := 100
@[simp] def NBUF : Nat := 10
@[simp] def NINODE : Nat := 50
@[simp] def NDEV : Nat := 10
def ROOTDEV : Nat := 1
@[simp] def LOGSIZE : Nat := 10

@[simp] def ROOTINO : Nat := 1
@[simp] def BSIZE : Nat := 512
@[simp] def NDIRECT : Nat := 11
@[simp] def NINDIRECT : Nat := BSIZE / 4
@[simp] def MAXFILE : Nat := NDIRECT + NINDIRECT + NINDIRECT * NINDIRECT
@[simp] def DIRSIZ : Nat := 14

/-- `sizeof(struct dinode)`: four shorts, `size` and `NDIRECT+2` addresses. -/
@[simp] def DINODESIZE : Nat := 8 + 4 + 4 * (NDIRECT + 2)

/-- `sizeof(struct dirent)`. -/
@[simp] def DIRENTSIZE : Nat := 2 + DIRSIZ

@[simp] def IPB : Nat := BSIZE / DINODESIZE
@[simp] def BPB : Nat := BSIZE * 8

/-- Block containing inode `i`. -/
def IBLOCK (i : Nat) : Nat := i / IPB + 2

/-- Block containing the bit for block `b`. -/
def BBLOCK (b ninodes : Nat) : Nat := b / BPB + ninodes / IPB + 3

@[simp] def T_DIR : BitVec 16 := 1
@[simp] def T_FILE : BitVec 16 := 2
@[simp] def T_DEV : BitVec 16 := 3

/-- The major number of the console, the only entry of `devsw` that is set. -/
@[simp] def CONSOLE : Nat := 1

@[simp] def O_RDONLY : Nat := 0x000
@[simp] def O_WRONLY : Nat := 0x001
@[simp] def O_RDWR : Nat := 0x002
@[simp] def O_CREATE : Nat := 0x200

/-- First kernel virtual address. -/
@[simp] def KERNBASE : Nat := 0x80000000

end Xv6
