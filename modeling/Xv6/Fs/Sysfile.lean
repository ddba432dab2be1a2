import Xv6.Fs.File

/-!
# File-system system calls: `sysfile.c`, `exit` and `fork` of `proc.c`, and `exec`

Each call is given its decoded arguments; a string argument is `none` when `argstr` fails. The
process that makes the call is `p`. What depends on the memory of the machine (whether the page
tables of a process can be made, which pages are mapped) is an argument too.
-/

namespace Xv6

open Lib

/-- Fetch a file descriptor argument. -/
def argfd (p : Nat) (fd : Int) : K (Option Nat) := do
  if fd < 0 ∨ (NOFILE : Int) ≤ fd then pure none
  else read fun s => (s.proc p).ofile fd.toNat

/-- Allocate a file descriptor for the given file. -/
def fdalloc (p f : Nat) : K (Option Nat) :=
  .act .tau (fun _ => true)
    (fun s => match findFrom (fun fd => ((s.proc p).ofile fd).isNone) 0 NOFILE with
      | some fd => s.setProc p fun pr =>
          { pr with ofile := fun i => if i = fd then some f else pr.ofile i }
      | none => s)
    fun s => .ret (findFrom (fun fd => ((s.proc p).ofile fd).isNone) 0 NOFILE)

/-- `proc->ofile[fd] = 0`. -/
def clearFd (p fd : Nat) : K Unit :=
  write fun s => s.setProc p fun pr =>
    { pr with ofile := fun i => if i = fd then none else pr.ofile i }

def sysDup (p : Nat) (fd : Int) : K Int := do
  match ← argfd p fd with
  | none => pure (-1)
  | some f =>
    match ← fdalloc p f with
    | none => pure (-1)
    | some fd =>
      filedup f
      pure fd

/-- `argptr` for the word `i` of the system call's arguments, in a process of size `sz`. -/
def argptr (sz i : Nat) (size : Int) : Option Nat :=
  if sz ≤ i ∨ sz < ((i + size) % 2 ^ 32).toNat then none else some i

/-- `sys_read` with the arguments `fd`, `ptr` and `n`: the result and the bytes stored from `ptr`
on. -/
def sysRead (p : Nat) (fd : Int) (ptr : Nat) (n : Int) : K (Int × List Byte) := do
  match ← argfd p fd with
  | none => pure (-1, [])
  | some f =>
    let sz ← read fun s => (s.proc p).sz
    match argptr sz ptr n with
    | none => pure (-1, [])
    | some _ => fileread p f n

/-- `sys_write` with the arguments `fd`, `ptr` and `n`; `src` is the memory of the process from
`ptr` on. -/
def sysWrite (p : Nat) (fd : Int) (ptr : Nat) (n : Int) (src : Nat → Byte) : K Int := do
  match ← argfd p fd with
  | none => pure (-1)
  | some f =>
    let sz ← read fun s => (s.proc p).sz
    match argptr sz ptr n with
    | none => pure (-1)
    | some _ => filewrite f n ((List.range n.toNat).map src)

def sysClose (p : Nat) (fd : Int) : K Int := do
  match ← argfd p fd with
  | none => pure (-1)
  | some f =>
    clearFd p fd.toNat
    fileclose f
    pure 0

def sysFstat (p : Nat) (fd : Int) : K Int := do
  match ← argfd p fd with
  | none => pure (-1)
  | some f =>
    match ← filestat f with
    | none => pure (-1)
    | some _ => pure 0

/-- The end of `sys_link` when the new entry cannot be made. -/
def linkBad (ip : Nat) : K Int := do
  ilock ip
  write fun s => s.setInode ip fun i => { i with nlink := i.nlink - 1 }
  iupdate ip
  iunlockput ip
  commitTrans
  pure (-1)

/-- Create the path `new` as a link to the same inode as `old`. -/
def sysLink (p : Nat) (old new : Option (List Byte)) : K Int := do
  match old, new with
  | some old, some new =>
    match ← namei p old with
    | none => pure (-1)
    | some ip =>
      beginTrans
      ilock ip
      let i ← read fun s => s.inode ip
      if i.type = T_DIR then
        iunlockput ip
        commitTrans
        pure (-1)
      else
        write fun s => s.setInode ip fun i => { i with nlink := i.nlink + 1 }
        iupdate ip
        iunlock ip
        match ← nameiparent p new with
        | none => linkBad ip
        | some (dp, name) =>
          ilock dp
          let d ← read fun s => s.inode dp
          let i ← read fun s => s.inode ip
          let r ← (if d.dev ≠ i.dev then pure (-1) else dirlink dp name i.inum : K Int)
          if r < 0 then
            iunlockput dp
            linkBad ip
          else
            iunlockput dp
            iput ip
            commitTrans
            pure 0
  | _, _ => pure (-1)

/-- The loop of `isdirempty` from offset `off` on. -/
def isdiremptyLoop (k off : Nat) : Nat → K Bool
  | 0 => pure true
  | fuel + 1 => do
    let dp ← read fun s => s.inode k
    if off < dp.size then
      let de ← readDirent k off .isdiremptyReadi
      if direntInum de ≠ 0 then pure false else isdiremptyLoop k (off + DIRENTSIZE) fuel
    else pure true

/-- Is the directory empty except for "." and ".."? -/
def isdirempty (k : Nat) : K Bool := do
  let size ← read fun s => (s.inode k).size
  isdiremptyLoop k (2 * DIRENTSIZE) (size + 1)

/-- The names "." and "..". -/
def dot : List Byte := [46]
def dotdot : List Byte := [46, 46]

/-- The end of `sys_unlink` when there is nothing to unlink. -/
def unlinkBad (dp : Nat) : K Int := do
  iunlockput dp
  commitTrans
  pure (-1)

def sysUnlink (p : Nat) (path : Option (List Byte)) : K Int := do
  match path with
  | none => pure (-1)
  | some path =>
    match ← nameiparent p path with
    | none => pure (-1)
    | some (dp, name) =>
      beginTrans
      ilock dp
      -- Cannot unlink "." or "..".
      if namecmp (cstr name) (cstr dot) = 0 ∨ namecmp (cstr name) (cstr dotdot) = 0 then
        unlinkBad dp
      else
        match ← dirlookup dp name with
        | none => unlinkBad dp
        | some (ip, off) =>
          ilock ip
          let i ← read fun s => s.inode ip
          if i.nlink.toInt < 1 then .panic .unlinkNlink
          else
            let empty ← (if i.type = T_DIR then isdirempty ip else pure true : K Bool)
            if !empty then
              iunlockput ip
              unlinkBad dp
            else
              let r ← writei dp off (List.replicate DIRENTSIZE 0)
              if r ≠ DIRENTSIZE then .panic .unlinkWritei
              else
                K.when (i.type = T_DIR) do
                  write fun s => s.setInode dp fun d => { d with nlink := d.nlink - 1 }
                  iupdate dp
                iunlockput dp
                write fun s => s.setInode ip fun i => { i with nlink := i.nlink - 1 }
                iupdate ip
                iunlockput ip
                commitTrans
                pure 0

/-- The "." and ".." entries of a new directory. -/
def createDots (ip dp : Nat) : K Unit := do
  write fun s => s.setInode dp fun d => { d with nlink := d.nlink + 1 }  -- for ".."
  iupdate dp
  let i ← read fun s => s.inode ip
  let d ← read fun s => s.inode dp
  let r ← dirlink ip dot i.inum
  if r < 0 then .panic .createDots
  else
    let r ← dirlink ip dotdot d.inum
    K.when (r < 0) (.panic .createDots)

/-- Create the path as an inode of the given type; the result is locked. -/
def create (p : Nat) (path : List Byte) (type major minor : BitVec 16) : K (Option Nat) := do
  match ← nameiparent p path with
  | none => pure none
  | some (dp, name) =>
    ilock dp
    match ← dirlookup dp name with
    | some (ip, _) =>
      iunlockput dp
      ilock ip
      let i ← read fun s => s.inode ip
      if type = T_FILE ∧ i.type = T_FILE then pure (some ip)
      else
        iunlockput ip
        pure none
    | none =>
      let d ← read fun s => s.inode dp
      let ip ← ialloc d.dev type
      ilock ip
      write fun s => s.setInode ip fun i => { i with major := major, minor := minor, nlink := 1 }
      iupdate ip
      K.when (type = T_DIR) (createDots ip dp)
      let i ← read fun s => s.inode ip
      let r ← dirlink dp name i.inum
      if r < 0 then .panic .createDirlink
      else
        iunlockput dp
        pure (some ip)

/-- The second half of `sys_open`: a descriptor for the locked inode `ip`. -/
def openFd (p ip : Nat) (omode : Nat) : K Int := do
  match ← filealloc with
  | none =>
    iunlockput ip
    pure (-1)
  | some f =>
    match ← fdalloc p f with
    | none =>
      fileclose f
      iunlockput ip
      pure (-1)
    | some fd =>
      iunlock ip
      write fun s => s.setFile f fun fl =>
        { fl with
          type := .inode
          ip := ip
          off := 0
          readable := omode &&& O_WRONLY = 0
          writable := omode &&& O_WRONLY ≠ 0 || omode &&& O_RDWR ≠ 0 }
      pure fd

def sysOpen (p : Nat) (path : Option (List Byte)) (omode : Nat) : K Int := do
  match path with
  | none => pure (-1)
  | some path =>
    if omode &&& O_CREATE ≠ 0 then
      beginTrans
      let ip ← create p path T_FILE 0 0
      commitTrans
      match ip with
      | none => pure (-1)
      | some ip => openFd p ip omode
    else
      match ← namei p path with
      | none => pure (-1)
      | some ip =>
        ilock ip
        let i ← read fun s => s.inode ip
        if i.type = T_DIR ∧ omode ≠ O_RDONLY then
          iunlockput ip
          pure (-1)
        else openFd p ip omode

/-- `sys_mkdir` and `sys_mknod`: create an inode, and keep no reference to it. -/
def mkNode (p : Nat) (path : Option (List Byte)) (type major minor : BitVec 16) : K Int := do
  beginTrans
  let ip ← (match path with
    | none => pure none
    | some path => create p path type major minor : K (Option Nat))
  match ip with
  | none =>
    commitTrans
    pure (-1)
  | some ip =>
    iunlockput ip
    commitTrans
    pure 0

def sysMkdir (p : Nat) (path : Option (List Byte)) : K Int := mkNode p path T_DIR 0 0

def sysMknod (p : Nat) (path : Option (List Byte)) (major minor : Int) : K Int :=
  mkNode p path T_DEV (BitVec.ofInt 16 major) (BitVec.ofInt 16 minor)

def sysChdir (p : Nat) (path : Option (List Byte)) : K Int := do
  match path with
  | none => pure (-1)
  | some path =>
    match ← namei p path with
    | none => pure (-1)
    | some ip =>
      ilock ip
      let i ← read fun s => s.inode ip
      if i.type ≠ T_DIR then
        iunlockput ip
        pure (-1)
      else
        iunlock ip
        match ← read fun s => (s.proc p).cwd with
        | none => .panic .nullInode
        | some cwd =>
          iput cwd
          write fun s => s.setProc p fun pr => { pr with cwd := some ip }
          pure 0

/-- Allocate the two files of a pipe. -/
def pipealloc : K (Option (Nat × Nat)) := do
  match ← filealloc with
  | none => pure none
  | some f0 =>
    match ← filealloc with
    | none =>
      fileclose f0
      pure none
    | some f1 =>
      match ← kalloc with
      | none =>
        fileclose f0
        fileclose f1
        pure none
      | some g =>
        write fun s => s.setPipe g fun _ => { readopen := true, writeopen := true }
        write fun s => s.setFile f0 fun fl =>
          { fl with type := .pipe, readable := true, writable := false, pipe := g }
        write fun s => s.setFile f1 fun fl =>
          { fl with type := .pipe, readable := false, writable := true, pipe := g }
        pure (some (f0, f1))

def sysPipe (p ptr : Nat) : K Int := do
  let sz ← read fun s => (s.proc p).sz
  match argptr sz ptr 8 with
  | none => pure (-1)
  | some _ =>
    match ← pipealloc with
    | none => pure (-1)
    | some (rf, wf) =>
      match ← fdalloc p rf with
      | none =>
        fileclose rf
        fileclose wf
        pure (-1)
      | some fd0 =>
        match ← fdalloc p wf with
        | none =>
          clearFd p fd0
          fileclose rf
          fileclose wf
          pure (-1)
        | some _ => pure 0

/-- The loop of `iNodeName` over the entries of `parent` from offset `off` on: the name of the
entry with number `inum`. -/
def iNodeNameLoop (parent inum off : Nat) : Nat → K (Option (List Byte))
  | 0 => pure none
  | fuel + 1 => do
    let size ← read fun s => (s.inode parent).size
    if off < size then
      let de ← readDirent parent off .getcwdEntry
      if direntInum de = inum then
        pure (some ((strncpy (direntName de) 0 (DIRSIZ - 1)).takeWhile (· ≠ 0)))
      else iNodeNameLoop parent inum (off + DIRENTSIZE) fuel
    else pure none

def iNodeName (ip parent : Nat) : K (Option (List Byte)) := do
  let inum ← read fun s => (s.inode ip).inum
  let size ← read fun s => (s.inode parent).size
  iNodeNameLoop parent inum 0 (size + 1)

/-- `namediNode`, with the offset in the buffer as result. Every level keeps a parent locked, so
there are never more levels than inodes in the cache. -/
def namediNode (p : Nat) (n : Int) (ip : Nat) : Nat → K Int
  | 0 => pure 0
  | fuel + 1 => do
    match ← namei p [slash] with
    | none => .panic .nullInode
    | some root =>
      let i ← read fun s => s.inode ip
      let r ← read fun s => s.inode root
      if i.inum = r.inum then pure 1
      else if i.type = T_DIR then
        match ← dirlookup ip dotdot with
        | none => .panic .ilock
        | some (parent, _) =>
          ilock parent
          match ← iNodeName ip parent with
          | none => .panic .getcwdName
          | some name =>
            let off ← namediNode p n parent fuel
            let off := off + name.length
            if off = n - 1 then pure n
            else
              iput parent
              pure (off + 1)
      else if i.type = T_DEV ∨ i.type = T_FILE then .panic .getcwdDevice
      else .panic .getcwdType

def sysGetcwd (p ptr : Nat) (n : Int) : K Int := do
  let sz ← read fun s => (s.proc p).sz
  match argptr sz ptr n with
  | none => pure 1
  | some _ =>
    match ← read fun s => (s.proc p).cwd with
    | none => .panic .nullInode
    | some cwd => namediNode p n cwd (NINODE + 1)

/-- The loop of `fork` over the descriptors `fd`, `fd+1`, …, `n` of them. -/
def forkLoop (p np fd : Nat) : Nat → K Unit
  | 0 => pure ()
  | n + 1 => do
    match ← read fun s => (s.proc p).ofile fd with
    | none => forkLoop p np (fd + 1) n
    | some f =>
      filedup f
      write fun s => s.setProc np fun pr =>
        { pr with ofile := fun i => if i = fd then some f else pr.ofile i }
      forkLoop p np (fd + 1) n

/-- `fork`; `np` is the child, unless `allocproc` or `copyuvm` fails. -/
def fork (p : Nat) (np : Option Nat) : K Int := do
  match np with
  | none => pure (-1)
  | some np =>
    let sz ← read fun s => (s.proc p).sz
    write fun s => s.setProc np fun pr => { pr with sz := sz }
    forkLoop p np 0 NOFILE
    match ← read fun s => (s.proc p).cwd with
    | none => .panic .nullInode
    | some cwd =>
      let k ← idup cwd
      write fun s => s.setProc np fun pr => { pr with cwd := some k }
      pure np

/-- The loop of `exit` over the descriptors `fd`, `fd+1`, …, `n` of them. -/
def exitLoop (p fd : Nat) : Nat → K Unit
  | 0 => pure ()
  | n + 1 => do
    match ← read fun s => (s.proc p).ofile fd with
    | none => exitLoop p (fd + 1) n
    | some f =>
      fileclose f
      clearFd p fd
      exitLoop p (fd + 1) n

/-- `exit`, up to the release of the current directory. Process 0 is `initproc`. -/
def exit (p : Nat) : K Unit := do
  if p = 0 then .panic .initExiting
  else
    exitLoop p 0 NOFILE
    match ← read fun s => (s.proc p).cwd with
    | none => .panic .nullInode
    | some cwd =>
      iput cwd
      write fun s => s.setProc p fun pr => { pr with cwd := none }

/-! ### `exec`, as far as it reads the file -/

/-- What `exec` finds in memory: the bytes of its uninitialised ELF header, whether `setupkvm`, the
calls of `allocuvm` and the work on the new stack succeed, which addresses `walkpgdir` finds, and
the size of the new image. -/
structure ExecVm where
  elf : List Byte
  kvm : Bool
  alloc : Nat → Bool
  page : Nat → Bool
  stack : Bool
  sz : Nat

def ELF_MAGIC : Nat := 0x464C457F
def ELFHDRSIZE : Nat := 52
def PROGHDRSIZE : Nat := 32
def ELF_PROG_LOAD : Nat := 1
def PGSIZE : Nat := 4096

/-- The loop of `loaduvm`: `sz` bytes at offset `i` of the segment, in pages. -/
def loaduvmLoop (p k : Nat) (vm : ExecVm) (addr offset sz i : Nat) : Nat → K Bool
  | 0 => pure true
  | fuel + 1 =>
    if i < sz then do
      if vm.page ((addr + i) % 2 ^ 32) then
        let n := min (sz - i) PGSIZE
        let (r, _) ← readi p k ((offset + i) % 2 ^ 32) n
        if r ≠ n then pure false else loaduvmLoop p k vm addr offset sz (i + PGSIZE) fuel
      else .panic .loaduvmExist
    else pure true

def loaduvm (p k : Nat) (vm : ExecVm) (addr offset sz : Nat) : K Bool :=
  if addr % PGSIZE ≠ 0 then .panic .loaduvmAligned
  else loaduvmLoop p k vm addr offset sz 0 (sz / PGSIZE + 1)

/-- The loop of `exec` over the program headers: `n` of them, from number `i` at `off` on. -/
def execLoop (p k : Nat) (vm : ExecVm) (i off : Nat) : Nat → K Bool
  | 0 => pure true
  | n + 1 => do
    let (r, bytes) ← readi p k off PROGHDRSIZE
    let ph := cstr bytes
    if r ≠ PROGHDRSIZE then pure false
    else if ph.le 0 4 ≠ ELF_PROG_LOAD then
      execLoop p k vm (i + 1) ((off + PROGHDRSIZE) % 2 ^ 32) n
    else if ph.le 20 4 < ph.le 16 4 then pure false
    else if !vm.alloc i then pure false
    else
      match ← loaduvm p k vm (ph.le 8 4) (ph.le 4 4) (ph.le 16 4) with
      | false => pure false
      | true => execLoop p k vm (i + 1) ((off + PROGHDRSIZE) % 2 ^ 32) n

/-- The part of `exec` that works on the locked inode `k`. `readi`'s `-1` is not less than
`sizeof(elf)`, so the header is then what was in memory. -/
def execLoad (p k : Nat) (vm : ExecVm) : K Bool := do
  let (r, bytes) ← readi p k 0 ELFHDRSIZE
  if 0 ≤ r ∧ r < ELFHDRSIZE then pure false
  else
    let elf := cstr (if r = -1 then vm.elf else bytes)
    if elf.le 0 4 ≠ ELF_MAGIC then pure false
    else if !vm.kvm then pure false
    else execLoop p k vm 0 (elf.le 28 4) (elf.le 44 2)

def exec (p : Nat) (path : List Byte) (vm : ExecVm) : K Int := do
  match ← namei p path with
  | none => pure (-1)
  | some k =>
    ilock k
    match ← execLoad p k vm with
    | false =>
      iunlockput k
      pure (-1)
    | true =>
      iunlockput k
      if !vm.stack then pure (-1)
      else
        write fun s => s.setProc p fun pr => { pr with sz := vm.sz }
        pure 0

/-- `sys_exec`; `path` is `none` when an argument is bad. -/
def sysExec (p : Nat) (path : Option (List Byte)) (vm : ExecVm) : K Int := do
  match path with
  | none => pure (-1)
  | some path => exec p path vm

/-! ### System calls -/

/-- The system calls that work on the file system, or on what it reads of a process. -/
inductive Syscall
  | dup (fd : Int)
  | read (fd : Int) (ptr : Nat) (n : Int)
  | write (fd : Int) (ptr : Nat) (n : Int) (src : Nat → Byte)
  | close (fd : Int)
  | fstat (fd : Int)
  | link (old new : Option (List Byte))
  | unlink (path : Option (List Byte))
  | open (path : Option (List Byte)) (omode : Nat)
  | mkdir (path : Option (List Byte))
  | mknod (path : Option (List Byte)) (major minor : Int)
  | chdir (path : Option (List Byte))
  | exec (path : Option (List Byte)) (vm : ExecVm)
  | pipe (ptr : Nat)
  | getcwd (ptr : Nat) (n : Int)
  | fork (np : Option Nat)
  | exit
  | kill (q : Nat)
  | sbrk (sz : Nat)

/-- The code of a system call of process `p`. -/
def Syscall.code (p : Nat) : Syscall → K Int
  | .dup fd => sysDup p fd
  | .read fd ptr n => do
    let (r, _) ← sysRead p fd ptr n
    pure r
  | .write fd ptr n src => sysWrite p fd ptr n src
  | .close fd => sysClose p fd
  | .fstat fd => sysFstat p fd
  | .link old new => sysLink p old new
  | .unlink path => sysUnlink p path
  | .open path omode => sysOpen p path omode
  | .mkdir path => sysMkdir p path
  | .mknod path major minor => sysMknod p path major minor
  | .chdir path => sysChdir p path
  | .exec path vm => sysExec p path vm
  | .pipe ptr => sysPipe p ptr
  | .getcwd ptr n => sysGetcwd p ptr n
  | .fork np => Xv6.fork p np
  | .exit => do
    Xv6.exit p
    pure 0
  | .kill q => do
    Xv6.write fun s => s.setProc q fun pr => { pr with killed := true }
    pure 0
  | .sbrk sz => do
    Xv6.write fun s => s.setProc p fun pr => { pr with sz := sz }
    pure 0

end Xv6
