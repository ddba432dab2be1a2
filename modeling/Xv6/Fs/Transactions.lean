import Xv6.Lib.Pool
import Xv6.Fs.Mkfs

/-!
# Log writes and transactions

System calls of any number of processes run together. The monitor of this module follows, for each
process, whether it is between its `begin_trans` and its `commit_trans`. All code stays within its
own transaction when it writes to the log, except in two places that depend on the state: `iput` of
the last reference to an unlinked inode, and `bmap` of a missing block.
-/

namespace Xv6

open Lib Prog

/-! ### The monitor -/

/-- A process in mode `m` (in its own transaction or not) that is not in a transaction does not drop
the last reference to an unlinked inode, and finds no block missing. -/
def Harmless (m : Bool) (l : Label) (s : State) : Prop :=
  m = false → match l with
    | .iput k => (s.inode k).lastUnlinked = false
    | .bmapTest zero => zero = false
    | _ => True

/-- A transaction begins outside a transaction, and the log is written and the transaction committed
inside one; only `begin_trans` and `commit_trans` change `log.busy`. -/
def transMonitor : Monitor Label State Bool where
  may := fun m l => match l with
    | .beginTrans => m = false
    | .commitTrans => m = true
    | .logWrite _ => m = true
    | _ => True
  next := fun m l => match l with
    | .beginTrans => true
    | .commitTrans => false
    | _ => m
  rely := fun m l s => (m = true → s.log.busy = true) ∧ Harmless m l s
  keeps := fun _ l s s' => match l with
    | .beginTrans => s.log.busy = false ∧ s'.log.busy = true
    | .commitTrans => s'.log.busy = false
    | _ => s'.log.busy = s.log.busy

/-- The code obeys the monitor from mode `m` to mode `m'`, and never finds itself outside of a
transaction in `log_write`. -/
def Moves {α : Type} (p : K α) (m m' : Bool) : Prop :=
  p.obeys transMonitor (· = .writeOutsideOfTrans) m fun _ n => n = m'

/-- The code ends in the mode in which it starts. -/
abbrev Keeps {α : Type} (m : Bool) (p : K α) : Prop := Moves p m m

section Rules

variable {α β : Type} {m m' m'' : Bool}

lemma moves_bind {p : K α} {f : α → K β} (h : Moves p m m') (hf : ∀ a, Moves (f a) m' m'') :
    Moves (p >>= f) m m'' :=
  obeys_bind h fun a _ e => e ▸ hf a

/-- Code whose first part may find nothing. -/
lemma moves_option {p : K (Option α)} {f : Option α → K β} (h : Moves p m m')
    (hnone : Moves (f none) m' m'') (hsome : ∀ a, Moves (f (some a)) m' m'') :
    Moves (p >>= f) m m'' :=
  moves_bind h (Option.rec hnone hsome)

lemma keeps_pure {a : α} : Keeps m (pure a : K α) := rfl

lemma moves_map {p : K α} {g : α → β} (h : Moves p m m') : Moves (p >>= fun a => pure (g a)) m m' :=
  moves_bind h fun _ => keeps_pure

lemma moves_panic {e : Panic} (he : e ≠ .writeOutsideOfTrans) :
    Moves (.panic e : K α) m m' := he

lemma keeps_read {f : State → α} : Keeps m (read f) :=
  ⟨trivial, fun _ _ _ => ⟨rfl, rfl⟩⟩

lemma moves_read {g : State → α} {f : α → K β} (hf : ∀ a, Moves (f a) m m') :
    Moves (read g >>= f) m m' :=
  moves_bind keeps_read hf

lemma keeps_write {u : State → State} (hu : ∀ s, (u s).log.busy = s.log.busy) :
    Keeps m (write u) :=
  ⟨trivial, fun s _ _ => ⟨hu s, rfl⟩⟩

/-- An action that shows nothing of the log. -/
lemma keeps_act {g : State → Bool} {u : State → State} {k : State → K α}
    (hu : ∀ s, (u s).log.busy = s.log.busy) (hk : ∀ s, Keeps m (k s)) :
    Keeps m (.act .tau g u k) :=
  ⟨trivial, fun s _ _ => ⟨hu s, hk s⟩⟩

lemma moves_ite {c : Prop} [Decidable c] {p q : K α} (hp : Moves p m m') (hq : Moves q m m') :
    Moves (if c then p else q) m m' := by
  split_ifs
  · exact hp
  · exact hq

lemma keeps_when {c : Prop} [Decidable c] {p : K Unit} (hp : Keeps m p) : Keeps m (K.when c p) :=
  moves_ite hp keeps_pure

end Rules

/-! ### Blocks -/

section Blocks

variable {m : Bool} {dev b n k : Nat}

lemma bread_keeps : Keeps m (bread dev b) :=
  keeps_act (fun _ => rfl) fun _ =>
    moves_ite (moves_panic (by decide)) (moves_ite (moves_panic (by decide)) keeps_pure)

lemma readsb_keeps : Keeps m (readsb dev) := moves_map bread_keeps

lemma beginTrans_moves : Moves beginTrans false true :=
  ⟨rfl, fun s hg _ => ⟨⟨by simpa using hg, rfl⟩, rfl⟩⟩

lemma commitTrans_moves : Moves commitTrans true false :=
  ⟨rfl, fun _ _ _ => ⟨rfl, rfl⟩⟩

lemma logWrite_keeps {data : Bytes} : Keeps true (logWrite b data) := by
  refine ⟨rfl, fun s _ hr => ⟨?_, ?_⟩⟩
  · change (ite _ _ _ : State).log.busy = _
    split_ifs <;> rfl
  · have hbusy := hr.1 rfl
    simp only [hbusy]
    exact moves_ite (moves_panic (by decide)) keeps_pure

lemma bzero_keeps : Keeps true (bzero dev b) := moves_bind bread_keeps fun _ => logWrite_keeps

lemma ballocLoop_keeps {sb : Superblock} : ∀ n b, Keeps true (ballocLoop dev sb b n)
  | 0, _ => moves_panic (by decide)
  | n + 1, b => moves_bind bread_keeps fun bp => by
    cases freeBit bp 0 (min BPB (sb.size - b)) with
    | none => exact ballocLoop_keeps n _
    | some bi =>
      exact moves_bind logWrite_keeps fun _ => moves_map bzero_keeps

lemma balloc_keeps : Keeps true (balloc dev) := moves_bind readsb_keeps fun _ =>
    ballocLoop_keeps _ _

lemma bfree_keeps : Keeps true (bfree dev b) :=
  moves_bind readsb_keeps fun _ => moves_bind bread_keeps fun _ =>
    moves_ite logWrite_keeps (moves_panic (by decide))

end Blocks

/-! ### Inodes -/

section Inodes

variable {m : Bool} {dev b i inum k n off : Nat}

lemma iupdate_keeps : Keeps true (iupdate k) :=
  moves_read fun _ => moves_bind bread_keeps fun _ => logWrite_keeps

lemma iget_keeps : Keeps m (iget dev inum) := by
  refine keeps_act (fun s => ?_) fun s => ?_
  · rcases igetSlot s.inode dev inum with ⟨_ | k, _ | k'⟩ <;> rfl
  · rcases igetSlot s.inode dev inum with ⟨_ | k, _ | k'⟩
    · exact moves_panic (by decide)
    all_goals exact keeps_pure

lemma idup_keeps : Keeps m (idup k) := moves_map (keeps_write fun _ => rfl)

lemma iallocLoop_keeps {type : BitVec 16} : ∀ n inum, Keeps true (iallocLoop dev type inum n)
  | 0, _ => moves_panic (by decide)
  | n + 1, _ => moves_bind bread_keeps fun _ =>
    moves_ite (moves_bind logWrite_keeps fun _ => iget_keeps) (iallocLoop_keeps n _)

lemma ialloc_keeps {type : BitVec 16} : Keeps true (ialloc dev type) :=
  moves_bind readsb_keeps fun _ => iallocLoop_keeps _ _

lemma ilock_keeps : Keeps m (ilock k) :=
  moves_read fun _ => moves_ite (moves_panic (by decide)) <|
    moves_bind (keeps_act (fun _ => rfl) fun _ => keeps_pure) fun _ =>
      moves_read fun _ => keeps_when <| moves_bind bread_keeps fun _ =>
        moves_bind (keeps_write fun _ => rfl) fun _ => keeps_when (moves_panic (by decide))

lemma iunlock_keeps : Keeps m (iunlock k) :=
  moves_read fun _ => moves_ite (moves_panic (by decide)) (keeps_write fun _ => rfl)

lemma setAddr_keeps {v : Nat} : Keeps m (setAddr k i v) := keeps_write fun _ => rfl

/-- `bmap` allocates a block only in a transaction. -/
lemma bmapTest_keeps {addr : Nat} {p : K Nat} (hp : Keeps true p) :
    Keeps m (do bmapTest addr; if addr = 0 then p else pure addr) := by
  refine ⟨trivial, fun s _ hr => ⟨rfl, ?_⟩⟩
  cases m with
  | true => exact moves_ite hp keeps_pure
  | false =>
    have hne : addr ≠ 0 := by simpa using hr.2 rfl
    change Moves (if addr = 0 then p else pure addr) false false
    rw [if_neg hne]
    exact keeps_pure

lemma bmapEntry_keeps : Keeps m (bmapEntry dev b i) :=
  moves_bind bread_keeps fun _ => bmapTest_keeps <|
    moves_bind balloc_keeps fun _ => moves_map logWrite_keeps

lemma bmapAddr_keeps : Keeps m (bmapAddr k i) :=
  moves_read fun _ => moves_read fun _ => bmapTest_keeps <|
    moves_bind balloc_keeps fun _ => moves_map setAddr_keeps

lemma bmap_keeps {bn : Nat} : Keeps m (bmap k bn) := by
  unfold bmap
  generalize NINDIRECT * NINDIRECT = n
  refine moves_read fun _ => moves_ite ?_ (moves_ite ?_ (moves_ite ?_ ?_))
  · exact bmapAddr_keeps
  · exact moves_bind bmapAddr_keeps fun _ => bmapEntry_keeps
  · exact moves_bind bmapAddr_keeps fun _ => moves_bind bmapEntry_keeps fun _ => bmapEntry_keeps
  · exact moves_panic (by decide)

lemma itruncDirect_keeps : ∀ n i, Keeps true (itruncDirect k i n)
  | 0, _ => keeps_pure
  | n + 1, _ => moves_read fun _ => moves_read fun _ =>
    moves_ite (itruncDirect_keeps n _) <| moves_bind bfree_keeps fun _ =>
      moves_bind setAddr_keeps fun _ => itruncDirect_keeps n _

lemma itruncEntries_keeps {bp : Bytes} : ∀ n i, Keeps true (itruncEntries dev bp i n)
  | 0, _ => keeps_pure
  | n + 1, _ => moves_ite (itruncEntries_keeps n _) <|
    moves_bind bfree_keeps fun _ => itruncEntries_keeps n _

lemma itrunc_keeps : Keeps true (itrunc k) :=
  moves_bind (itruncDirect_keeps _ _) fun _ => moves_read fun _ =>
    moves_read fun _ => moves_bind (keeps_when <| moves_bind bread_keeps fun _ =>
      moves_bind (itruncEntries_keeps _ _) fun _ => moves_bind bfree_keeps fun _ => setAddr_keeps)
    fun _ => moves_bind (keeps_write fun _ => rfl) fun _ => iupdate_keeps

/-- `iput` truncates only in a transaction. -/
lemma iput_keeps : Keeps m (iput k) := by
  refine ⟨trivial, fun s _ hr => ⟨rfl, ?_⟩⟩
  have htrunc : Keeps true (do
      itrunc k
      write fun s => s.setInode k fun ip => { ip with type := 0 }
      iupdate k
      write fun s => s.setInode k fun ip =>
        { ip with busy := false, valid := false, ref := ip.ref - 1 }) :=
    moves_bind itrunc_keeps fun _ => moves_bind (keeps_write fun _ => rfl) fun _ =>
      moves_bind iupdate_keeps fun _ => keeps_write fun _ => rfl
  cases m with
  | true => exact moves_bind (moves_ite (moves_panic (by decide)) keeps_pure) fun _ =>
      keeps_when htrunc
  | false =>
    have hlast : (s.inode k).lastUnlinked = false := hr.2 rfl
    simp only [hlast]
    exact keeps_pure

lemma iunlockput_keeps : Keeps m (iunlockput k) := moves_bind iunlock_keeps fun _ => iput_keeps

end Inodes

/-! ### Contents and directories -/

section Contents

variable {m : Bool} {p k n off : Nat}

lemma consolereadLoop_keeps {target : Nat} : ∀ n, Keeps m (consolereadLoop p target n)
  | 0 => keeps_pure
  | n + 1 => by
    refine moves_bind (keeps_act (fun s => ?_) fun _ => keeps_pure) fun c => ?_
    · cases s.input with
      | nil => rfl
      | cons c cs =>
        dsimp only
        split_ifs <;> rfl
    · cases c with
      | none => exact keeps_pure
      | some c =>
        exact moves_ite keeps_pure <| moves_ite keeps_pure <|
          moves_map (consolereadLoop_keeps n)

lemma consoleread_keeps {n : Int} : Keeps m (consoleread p k n) :=
  moves_bind iunlock_keeps fun _ => moves_bind (consolereadLoop_keeps _) fun _ =>
    moves_map ilock_keeps

lemma consolewrite_keeps {n : Int} : Keeps m (consolewrite k n) :=
  moves_bind iunlock_keeps fun _ => moves_map ilock_keeps

lemma readiLoop_keeps : ∀ fuel off n, Keeps m (readiLoop k off n fuel)
  | 0, _, _ => keeps_pure
  | fuel + 1, _, _ => moves_ite keeps_pure <| moves_read fun _ =>
    moves_bind bmap_keeps fun _ => moves_bind bread_keeps fun _ =>
      moves_map (readiLoop_keeps fuel _ _)

lemma readi_keeps : Keeps m (readi p k off n) := by
  refine moves_read fun ip => moves_ite (moves_ite consoleread_keeps keeps_pure) ?_
  cases readiLen ip.size off n with
  | none => exact keeps_pure
  | some n => exact moves_map (readiLoop_keeps _ _ _)

lemma writeiLoop_keeps : ∀ fuel off (src : List Byte), Keeps true (writeiLoop k off src fuel)
  | 0, _, _ => keeps_pure
  | fuel + 1, _, _ => moves_ite keeps_pure <| moves_read fun _ =>
    moves_bind bmap_keeps fun _ => moves_bind bread_keeps fun _ =>
      moves_bind logWrite_keeps fun _ => writeiLoop_keeps fuel _ _

lemma writei_keeps {src : List Byte} : Keeps true (writei k off src) := by
  unfold writei
  generalize MAXFILE * BSIZE = max
  exact moves_read fun _ => moves_ite (moves_ite consolewrite_keeps keeps_pure) <|
    moves_ite keeps_pure <| moves_ite keeps_pure <| moves_bind (writeiLoop_keeps _ _ _) fun _ =>
      moves_read fun _ => moves_map (keeps_when <| moves_bind (keeps_write fun _ => rfl)
        fun _ => iupdate_keeps)

lemma readDirent_keeps {e : Panic} (he : e ≠ .writeOutsideOfTrans) : Keeps m (readDirent k off e) :=
  moves_bind readi_keeps fun _ => moves_ite keeps_pure (moves_panic he)

lemma dirlookupLoop_keeps {name : List Byte} : ∀ fuel off, Keeps m (dirlookupLoop k name off fuel)
  | 0, _ => keeps_pure
  | fuel + 1, _ => moves_read fun _ => moves_ite (moves_bind
    (readDirent_keeps (by decide)) fun _ => moves_ite (moves_map iget_keeps)
      (dirlookupLoop_keeps fuel _)) keeps_pure

lemma dirlookup_keeps {name : List Byte} : Keeps m (dirlookup k name) :=
  moves_read fun _ => moves_ite (moves_panic (by decide)) (dirlookupLoop_keeps _ _)

lemma dirlinkLoop_keeps : ∀ fuel off, Keeps m (dirlinkLoop k off fuel)
  | 0, _ => keeps_pure
  | fuel + 1, _ => moves_read fun _ => moves_ite (moves_bind
    (readDirent_keeps (by decide)) fun _ =>
      moves_ite keeps_pure (dirlinkLoop_keeps fuel _)) keeps_pure

lemma dirlink_keeps {name : List Byte} {inum : Nat} : Keeps true (dirlink k name inum) :=
  moves_option dirlookup_keeps
    (moves_read fun _ => moves_bind (dirlinkLoop_keeps _ _) fun _ =>
      moves_bind writei_keeps fun _ => moves_ite keeps_pure (moves_panic (by decide)))
    fun _ => moves_map iput_keeps

lemma namexLoop_keeps {parent : Bool} : ∀ fuel k (path name : List Byte),
    Keeps m (namexLoop parent k path name fuel)
  | 0, _, _, _ => keeps_pure
  | fuel + 1, k, path, name => by
    unfold namexLoop
    cases skipelem path with
    | none => exact moves_ite (moves_map iput_keeps) keeps_pure
    | some r =>
      exact moves_bind ilock_keeps fun _ => moves_read fun _ => moves_ite
        (moves_map iunlockput_keeps) <| moves_ite
        (moves_map iunlock_keeps) <| moves_option dirlookup_keeps
          (moves_map iunlockput_keeps)
          fun _ => moves_bind iunlockput_keeps fun _ => namexLoop_keeps fuel _ _ _

lemma namex_keeps {path : List Byte} {parent : Bool} : Keeps m (namex p path parent) :=
  moves_ite (moves_bind iget_keeps fun _ => namexLoop_keeps _ _ _ _) <|
    moves_option keeps_read (moves_panic (by decide)) fun _ =>
      moves_bind idup_keeps fun _ => namexLoop_keeps _ _ _ _

lemma namei_keeps {path : List Byte} : Keeps m (namei p path) :=
  moves_map namex_keeps

lemma nameiparent_keeps {path : List Byte} : Keeps m (nameiparent p path) := namex_keeps

end Contents

/-! ### Files -/

section Files

variable {m : Bool} {p f k fd : Nat}

lemma filealloc_keeps : Keeps m filealloc := by
  refine keeps_act (fun s => ?_) fun _ => keeps_pure
  cases findFrom (fun f => decide ((s.file f).ref = 0)) 0 NFILE <;> rfl

lemma filedup_keeps : Keeps m (filedup f) := by
  refine keeps_act (fun s => ?_) fun _ => moves_ite (moves_panic (by decide)) keeps_pure
  split_ifs <;> rfl

lemma fileput_keeps : Keeps m (fileput f) := by
  refine keeps_act (fun s => ?_) fun _ => moves_ite (moves_panic (by decide)) <|
    moves_ite keeps_pure keeps_pure
  split_ifs <;> rfl

lemma pipeclose_keeps {g : Nat} {writable : Bool} : Keeps m (pipeclose g writable) :=
  moves_bind (keeps_act (fun _ => rfl) fun _ => keeps_pure) fun _ =>
    keeps_when (keeps_write fun _ => rfl)

lemma fileclose_keeps : Keeps false (fileclose f) :=
  moves_option fileput_keeps keeps_pure fun _ => moves_ite pipeclose_keeps <| keeps_when <|
    moves_bind beginTrans_moves fun _ => moves_bind iput_keeps fun _ => commitTrans_moves

lemma filestat_keeps : Keeps m (filestat f) :=
  moves_read fun _ => moves_ite (moves_bind ilock_keeps fun _ => moves_read fun _ =>
    moves_map iunlock_keeps) keeps_pure

lemma fileread_keeps {n : Int} : Keeps m (fileread p f n) :=
  moves_read fun _ => moves_ite keeps_pure <| moves_ite keeps_pure <| moves_ite
    (moves_bind ilock_keeps fun _ => moves_read fun _ => moves_bind readi_keeps fun _ =>
      moves_bind (keeps_when (keeps_write fun _ => rfl)) fun _ => moves_map iunlock_keeps)
        (moves_panic (by decide))

lemma filewriteLoop_keeps :
    ∀ fuel (src : List Byte), Keeps false ((fileOps f k).filewriteLoop src fuel)
  | 0, _ => keeps_pure
  | fuel + 1, _ => moves_ite keeps_pure <| moves_bind beginTrans_moves fun _ =>
    moves_bind ilock_keeps fun _ => moves_read fun _ => moves_bind writei_keeps fun _ =>
      moves_bind (keeps_when (keeps_write fun _ => rfl)) fun _ => moves_bind iunlock_keeps fun _ =>
        moves_bind commitTrans_moves fun _ => moves_ite keeps_pure <|
          moves_ite (moves_panic (show Panic.shortFilewrite ≠ _ by decide))
            (filewriteLoop_keeps fuel _)

lemma filewrite_keeps {n : Int} {src : List Byte} : Keeps false (filewrite f n src) :=
  moves_read fun _ => moves_ite keeps_pure <| moves_ite keeps_pure <| moves_ite
    (moves_map (filewriteLoop_keeps _ _)) (moves_panic (by decide))

lemma argfd_keeps {fd : Int} : Keeps m (argfd p fd) := moves_ite keeps_pure keeps_read

lemma fdalloc_keeps : Keeps m (fdalloc p f) := by
  refine keeps_act (fun s => ?_) fun _ => keeps_pure
  cases findFrom (fun fd => ((s.proc p).ofile fd).isNone) 0 NOFILE <;> rfl

lemma clearFd_keeps : Keeps m (clearFd p fd) := keeps_write fun _ => rfl

end Files

/-! ### System calls -/

section Calls

variable {p ip dp k : Nat} {fd n : Int} {path : List Byte}

lemma linkBad_moves : Moves (linkBad ip) true false :=
  moves_bind ilock_keeps fun _ => moves_bind (keeps_write fun _ => rfl) fun _ =>
    moves_bind iupdate_keeps fun _ => moves_bind iunlockput_keeps fun _ =>
      moves_map commitTrans_moves

lemma sysLink_keeps (old new : Option (List Byte)) : Keeps false (sysLink p old new) := by
  unfold sysLink
  split
  · exact moves_option namei_keeps keeps_pure fun _ => moves_bind beginTrans_moves fun _ =>
      moves_bind ilock_keeps fun _ => moves_read fun _ => moves_ite
        (moves_bind iunlockput_keeps fun _ => moves_map commitTrans_moves) <|
      moves_bind (keeps_write fun _ => rfl) fun _ => moves_bind iupdate_keeps fun _ =>
      moves_bind iunlock_keeps fun _ => moves_option nameiparent_keeps linkBad_moves fun _ =>
      moves_bind ilock_keeps fun _ => moves_read fun _ => moves_read fun _ =>
      moves_bind (moves_ite keeps_pure dirlink_keeps) fun _ => moves_ite
        (moves_bind iunlockput_keeps fun _ => linkBad_moves) <|
      moves_bind iunlockput_keeps fun _ => moves_bind iput_keeps fun _ =>
      moves_map commitTrans_moves
  · exact keeps_pure

lemma isdiremptyLoop_keeps {m : Bool} : ∀ fuel off, Keeps m (isdiremptyLoop k off fuel)
  | 0, _ => keeps_pure
  | fuel + 1, _ => moves_read fun _ => moves_ite (moves_bind
    (readDirent_keeps (by decide)) fun _ => moves_ite keeps_pure (isdiremptyLoop_keeps fuel _))
      keeps_pure

lemma unlinkBad_moves : Moves (unlinkBad dp) true false :=
  moves_bind iunlockput_keeps fun _ => moves_map commitTrans_moves

lemma sysUnlink_keeps (path : Option (List Byte)) : Keeps false (sysUnlink p path) := by
  cases path with
  | none => exact keeps_pure
  | some path =>
    exact moves_option nameiparent_keeps keeps_pure fun _ => moves_bind beginTrans_moves fun _ =>
      moves_bind ilock_keeps fun _ => moves_ite unlinkBad_moves <|
      moves_option dirlookup_keeps unlinkBad_moves fun _ => moves_bind ilock_keeps fun _ =>
      moves_read fun _ => moves_ite (moves_panic (by decide)) <|
      moves_bind (moves_ite (moves_read fun _ => isdiremptyLoop_keeps _ _) keeps_pure)
      fun _ => moves_ite (moves_bind iunlockput_keeps fun _ => unlinkBad_moves) <|
      moves_bind writei_keeps fun _ => moves_ite (moves_panic (by decide)) <| moves_bind
        (keeps_when <| moves_bind (keeps_write fun _ => rfl) fun _ => iupdate_keeps) fun _ =>
      moves_bind iunlockput_keeps fun _ => moves_bind (keeps_write fun _ => rfl) fun _ =>
      moves_bind iupdate_keeps fun _ => moves_bind iunlockput_keeps fun _ =>
      moves_map commitTrans_moves

lemma createDots_keeps : Keeps true (createDots ip dp) :=
  moves_bind (keeps_write fun _ => rfl) fun _ => moves_bind iupdate_keeps fun _ =>
    moves_read fun _ => moves_read fun _ => moves_bind dirlink_keeps fun _ =>
      moves_ite (moves_panic (by decide)) <| moves_bind dirlink_keeps fun _ =>
        keeps_when (moves_panic (by decide))

lemma create_keeps {type major minor : BitVec 16} :
    Keeps true (create p path type major minor) := by
  refine moves_option nameiparent_keeps keeps_pure fun _ => moves_bind ilock_keeps fun _ =>
    moves_option dirlookup_keeps ?_ fun _ => ?_
  · exact moves_read fun _ => moves_bind ialloc_keeps fun _ => moves_bind ilock_keeps
      fun _ => moves_bind (keeps_write fun _ => rfl) fun _ => moves_bind iupdate_keeps fun _ =>
      moves_bind (keeps_when createDots_keeps) fun _ => moves_read fun _ =>
      moves_bind dirlink_keeps fun _ => moves_ite (moves_panic (by decide)) <|
      moves_map iunlockput_keeps
  · exact moves_bind iunlockput_keeps fun _ => moves_bind ilock_keeps fun _ => moves_read fun _ =>
      moves_ite keeps_pure <| moves_map iunlockput_keeps

lemma openFd_keeps {omode : Nat} : Keeps false (openFd p ip omode) :=
  moves_option filealloc_keeps (moves_map iunlockput_keeps) fun _ =>
    moves_option fdalloc_keeps
      (moves_bind fileclose_keeps fun _ => moves_map iunlockput_keeps)
      fun _ => moves_bind iunlock_keeps fun _ => moves_map (keeps_write fun _ => rfl)

lemma sysOpen_keeps {omode : Nat} (path : Option (List Byte)) :
    Keeps false (sysOpen p path omode) := by
  cases path with
  | none => exact keeps_pure
  | some path =>
    exact moves_ite (moves_bind beginTrans_moves fun _ => moves_option create_keeps
        (moves_map commitTrans_moves)
        fun _ => moves_bind commitTrans_moves fun _ => openFd_keeps) <|
      moves_option namei_keeps keeps_pure fun _ => moves_bind ilock_keeps fun _ => moves_read
        fun _ => moves_ite (moves_map iunlockput_keeps) openFd_keeps

lemma mkNode_keeps {type major minor : BitVec 16} (path : Option (List Byte)) :
    Keeps false (mkNode p path type major minor) := by
  refine moves_bind beginTrans_moves fun _ => moves_option (show Keeps true _ from ?_)
    (moves_map commitTrans_moves)
    fun _ => moves_bind iunlockput_keeps fun _ => moves_map commitTrans_moves
  cases path with
  | none => exact keeps_pure
  | some path => exact create_keeps

lemma sysChdir_keeps (path : Option (List Byte)) : Keeps false (sysChdir p path) := by
  cases path with
  | none => exact keeps_pure
  | some path =>
    exact moves_option namei_keeps keeps_pure fun _ => moves_bind ilock_keeps fun _ =>
      moves_read fun _ => moves_ite (moves_map iunlockput_keeps) <|
      moves_bind iunlock_keeps fun _ => moves_option keeps_read (moves_panic (by decide)) fun _ =>
      moves_bind iput_keeps fun _ => moves_map (keeps_write fun _ => rfl)

lemma pipealloc_keeps : Keeps false pipealloc :=
  moves_option filealloc_keeps keeps_pure fun _ =>
    moves_option filealloc_keeps (moves_map fileclose_keeps) fun _ =>
    moves_option (keeps_act (fun _ => rfl) fun _ => keeps_pure)
      (moves_bind fileclose_keeps fun _ => moves_map fileclose_keeps) fun _ =>
    moves_bind (keeps_write fun _ => rfl) fun _ => moves_bind (keeps_write fun _ => rfl)
      fun _ => moves_map (keeps_write fun _ => rfl)

lemma sysPipe_keeps {ptr : Nat} : Keeps false (sysPipe p ptr) := by
  refine moves_read fun sz => ?_
  cases argptr sz ptr 8 with
  | none => exact keeps_pure
  | some _ =>
    have hbad {f0 f1 : Nat} : Keeps false (do fileclose f0; fileclose f1; pure (-1 : Int)) :=
      moves_bind fileclose_keeps fun _ => moves_map fileclose_keeps
    exact moves_option pipealloc_keeps keeps_pure fun _ => moves_option fdalloc_keeps hbad fun _ =>
      moves_option fdalloc_keeps (moves_bind clearFd_keeps fun _ => hbad) fun _ => keeps_pure

lemma iNodeNameLoop_keeps {m : Bool} {inum : Nat} :
    ∀ fuel off, Keeps m (iNodeNameLoop k inum off fuel)
  | 0, _ => keeps_pure
  | fuel + 1, _ => moves_read fun _ => moves_ite (moves_bind
    (readDirent_keeps (by decide)) fun _ => moves_ite keeps_pure (iNodeNameLoop_keeps fuel _))
      keeps_pure

lemma iNodeName_keeps {m : Bool} : Keeps m (iNodeName ip k) :=
  moves_read fun _ => moves_read fun _ => iNodeNameLoop_keeps _ _

lemma namediNode_keeps {m : Bool} : ∀ fuel ip, Keeps m (namediNode p n ip fuel)
  | 0, _ => keeps_pure
  | fuel + 1, ip => by
    refine moves_option namei_keeps (moves_panic (by decide)) fun _ => moves_read fun _ =>
      moves_read fun _ => moves_ite keeps_pure <| moves_ite ?_ <|
      moves_ite (moves_panic (by decide)) (moves_panic (by decide))
    exact moves_option dirlookup_keeps (moves_panic (by decide)) fun _ => moves_bind ilock_keeps
      fun _ => moves_option iNodeName_keeps (moves_panic (by decide)) fun _ => moves_bind
        (namediNode_keeps fuel _) fun _ => moves_ite keeps_pure <|
          moves_map iput_keeps

lemma sysGetcwd_keeps {m : Bool} {ptr : Nat} : Keeps m (sysGetcwd p ptr n) := by
  refine moves_read fun sz => ?_
  cases argptr sz ptr n with
  | none => exact keeps_pure
  | some _ =>
    exact moves_option keeps_read (moves_panic (by decide)) fun _ => namediNode_keeps _ _

lemma forkLoop_keeps {m : Bool} {np : Nat} : ∀ n fd, Keeps m (forkLoop p np fd n)
  | 0, _ => keeps_pure
  | n + 1, _ => moves_option keeps_read (forkLoop_keeps n _) fun _ => moves_bind filedup_keeps
    fun _ => moves_bind (keeps_write fun _ => rfl) fun _ => forkLoop_keeps n _

lemma fork_keeps {m : Bool} (np : Option Nat) : Keeps m (fork p np) := by
  cases np with
  | none => exact keeps_pure
  | some np =>
    exact moves_read fun _ => moves_bind (keeps_write fun _ => rfl) fun _ =>
      moves_bind (forkLoop_keeps _ _) fun _ => moves_option keeps_read (moves_panic (by decide))
      fun _ => moves_bind idup_keeps fun _ => moves_map (keeps_write fun _ => rfl)

lemma exitLoop_keeps : ∀ n fd, Keeps false (exitLoop p fd n)
  | 0, _ => keeps_pure
  | n + 1, _ => moves_option keeps_read (exitLoop_keeps n _) fun _ => moves_bind fileclose_keeps
    fun _ => moves_bind clearFd_keeps fun _ => exitLoop_keeps n _

lemma exit_keeps : Keeps false (exit p) :=
  moves_ite (moves_panic (by decide)) <| moves_bind (exitLoop_keeps _ _) fun _ =>
    moves_option keeps_read (moves_panic (by decide)) fun _ =>
      moves_bind iput_keeps fun _ => keeps_write fun _ => rfl

lemma loaduvmLoop_keeps {m : Bool} {vm : ExecVm} {addr offset sz : Nat} :
    ∀ fuel i, Keeps m (loaduvmLoop p k vm addr offset sz i fuel)
  | 0, _ => keeps_pure
  | fuel + 1, _ => moves_ite (moves_ite (moves_bind readi_keeps fun _ => moves_ite keeps_pure
    (loaduvmLoop_keeps fuel _)) (moves_panic (by decide))) keeps_pure

lemma execLoop_keeps {m : Bool} {vm : ExecVm} : ∀ n i off, Keeps m (execLoop p k vm i off n)
  | 0, _, _ => keeps_pure
  | n + 1, _, _ => by
    refine moves_bind readi_keeps fun _ => moves_ite keeps_pure <| moves_ite
      (execLoop_keeps n _ _) <| moves_ite keeps_pure <| moves_ite keeps_pure <|
        moves_bind (moves_ite (moves_panic (by decide)) (loaduvmLoop_keeps _ _)) fun r => ?_
    cases r with
    | false => exact keeps_pure
    | true => exact execLoop_keeps n _ _

lemma execLoad_keeps {m : Bool} {vm : ExecVm} : Keeps m (execLoad p k vm) :=
  moves_bind readi_keeps fun _ => moves_ite keeps_pure <| moves_ite keeps_pure <|
    moves_ite keeps_pure (execLoop_keeps _ _ _)

lemma sysExec_keeps {m : Bool} {vm : ExecVm} (path : Option (List Byte)) :
    Keeps m (sysExec p path vm) := by
  cases path with
  | none => exact keeps_pure
  | some path =>
    refine moves_option namei_keeps keeps_pure fun k => moves_bind ilock_keeps fun _ =>
      moves_bind execLoad_keeps fun r => ?_
    cases r with
    | false => exact moves_map iunlockput_keeps
    | true =>
      exact moves_bind iunlockput_keeps fun _ => moves_ite keeps_pure <|
        moves_map (keeps_write fun _ => rfl)

/-- Every system call starts and ends outside a transaction. -/
lemma Syscall.code_keeps (c : Syscall) : Keeps false (c.code p) := by
  cases c with
  | dup fd =>
    exact moves_option argfd_keeps keeps_pure fun _ => moves_option fdalloc_keeps keeps_pure
      fun _ => moves_map filedup_keeps
  | read fd ptr n =>
    refine moves_map (moves_option argfd_keeps keeps_pure fun f => moves_read fun sz =>
      ?_)
    cases argptr sz ptr n with
    | none => exact keeps_pure
    | some _ => exact fileread_keeps
  | write fd ptr n src =>
    refine moves_option argfd_keeps keeps_pure fun f => moves_read fun sz => ?_
    cases argptr sz ptr n with
    | none => exact keeps_pure
    | some _ => exact filewrite_keeps
  | close fd =>
    exact moves_option argfd_keeps keeps_pure fun _ => moves_bind clearFd_keeps fun _ =>
      moves_map fileclose_keeps
  | fstat fd =>
    exact moves_option argfd_keeps keeps_pure fun _ =>
      moves_option filestat_keeps keeps_pure fun _ => keeps_pure
  | link old new => exact sysLink_keeps old new
  | unlink path => exact sysUnlink_keeps path
  | «open» path omode => exact sysOpen_keeps path
  | mkdir path => exact mkNode_keeps path
  | mknod path major minor => exact mkNode_keeps path
  | chdir path => exact sysChdir_keeps path
  | exec path vm => exact sysExec_keeps path
  | pipe ptr => exact sysPipe_keeps
  | getcwd ptr n => exact sysGetcwd_keeps
  | fork np => exact fork_keeps np
  | exit => exact moves_map exit_keeps
  | kill q => exact moves_map (keeps_write fun _ => rfl)
  | sbrk sz => exact moves_map (keeps_write fun _ => rfl)

end Calls

/-! ### Processes -/

/-- The kernel with its processes; the mode of a process says whether it is between its own
`begin_trans` and its `commit_trans`. -/
abbrev Machine := Pool Label State Panic Bool

/-- The code of a system call as a thread. -/
def Syscall.thread (p : Nat) (c : Syscall) : K Unit := do
  let _ ← c.code p
  pure ()

/-- A process that runs no system call may start any. -/
def Calls (p : Nat) (q : K Unit) : Prop := ∃ c : Syscall, q = c.thread p

/-- Characters arrive at the console. -/
def Console (s s' : State) : Prop := ∃ cs, s' = { s with input := s.input ++ cs }

/-- The machine in state `s`, with every process outside the kernel. -/
def Machine.start (s : State) : Machine := ⟨s, fun _ => .ret (), fun _ => false⟩

/-- The machine is reached by steps that meet the condition. -/
abbrev Machine.Run (cond : Bool → Label → State → Prop) : Machine → Machine → Prop :=
  Pool.Run transMonitor Calls Console cond

/-- At most one process is in its transaction, and the log is busy when one is. -/
structure OneTransaction (s : State) (mode : Nat → Bool) : Prop where
  unique : ∀ p q, mode p = true → mode q = true → p = q
  busy : ∀ p, mode p = true → s.log.busy = true

/-- What the monitor demands keeps transactions apart. -/
lemma OneTransaction.step {s s' : State} {mode : Nat → Bool} {p : Nat} {l : Label}
    (h : OneTransaction s mode) (hmay : transMonitor.may (mode p) l)
    (hkeeps : transMonitor.keeps (mode p) l s s') :
    OneTransaction s' (upd mode p (transMonitor.next (mode p) l)) := by
  cases l with
  | beginTrans =>
    have hnone : ∀ q, mode q ≠ true := fun q hq => by
      have := h.busy q hq
      rw [hkeeps.1] at this
      cases this
    have honly : ∀ q, upd mode p true q = true → q = p := fun q hq => by
      by_contra hqp
      exact hnone q (by rwa [upd_ne hqp] at hq)
    exact ⟨fun q r hq hr => (honly q hq).trans (honly r hr).symm, fun _ _ => hkeeps.2⟩
  | commitTrans =>
    have hnone : ∀ q, upd mode p false q ≠ true := fun q hq => by
      by_cases hqp : q = p
      · rw [hqp, upd_same] at hq
        cases hq
      · rw [upd_ne hqp] at hq
        exact hqp (h.unique q p hq hmay)
    exact ⟨fun q _ hq => absurd hq (hnone q), fun q hq => absurd hq (hnone q)⟩
  | _ =>
    change OneTransaction s' (upd mode p (mode p))
    rw [upd_eq_self]
    exact ⟨h.unique, fun q hq => Eq.trans hkeeps (h.busy q hq)⟩

/-- Transactions are respected. From any state, whatever the processes do in steps that are all
harmless, at most one process is in its transaction, a process that is about to write to the log is
in its own transaction, and none has found itself outside of one. -/
theorem logWrite_in_transaction {s0 : State} {c : Machine}
    (h : Machine.Run Harmless (Machine.start s0) c) :
    (∀ p q, c.mode p = true → c.mode q = true → p = q) ∧
    (∀ p b g u k, c.thread p = .act (.logWrite b) g u k → c.mode p = true ∧
      c.state.log.busy = true) ∧
    ∀ p, c.thread p ≠ .panic .writeOutsideOfTrans := by
  have hcalls : ∀ p q, Calls p q → q.obeys transMonitor (· = .writeOutsideOfTrans) false
      fun _ m => m = false := fun p q ⟨c, hq⟩ =>
    hq ▸ moves_bind c.code_keeps fun _ => keeps_pure
  obtain ⟨hJ, hobeys⟩ := Pool.Run.invariant (J := OneTransaction) h hcalls
    (fun s mode p l hJ hc => ⟨hJ.busy p, hc⟩)
    (fun s s' mode p l hJ hm hk => hJ.step hm hk)
    (fun s s' mode hJ ⟨cs, hs⟩ => ⟨hJ.unique, fun p hp => hs ▸ hJ.busy p hp⟩)
    ⟨fun _ _ hp => (by cases hp), fun _ hp => (by cases hp)⟩ fun p => ⟨rfl, rfl⟩
  refine ⟨hJ.unique, fun p b g u k hp => ?_, fun p hp => ?_⟩
  · have hmode : c.mode p = true := by
      have := hobeys p
      rw [hp] at this
      exact this.1
    exact ⟨hmode, hJ.busy p hmode⟩
  · have := hobeys p
    rw [hp] at this
    exact this rfl

/-! ### One call after the other -/

/-- System calls, each with its process, one after the other. -/
def runCalls : List (Nat × Syscall) → State → Res State Panic Unit
  | [], s => .ok () s
  | (p, c) :: cs, s => ((c.thread p).run s).andThen fun _ s => runCalls cs s

/-- The machine can run calls one after the other, so it can run into the panic they run into. -/
lemma Machine.Run.runCalls {c0 : Machine} {e : Panic} {s' : State} (cs : List (Nat × Syscall)) :
    ∀ c : Machine, Machine.Run (fun _ _ _ => True) c0 c → (∀ p, c.thread p = .ret ()) →
      Xv6.runCalls cs c.state = .stop (some e) s' →
      ∃ c' p, Machine.Run (fun _ _ _ => True) c0 c' ∧ c'.thread p = .panic e := by
  induction cs with
  | nil => intro c _ _ hr; cases hr
  | cons pc cs ih =>
    obtain ⟨p, sc⟩ := pc
    intro c hrun hidle hr
    have hstart := hrun.step (.start p (hidle p) ⟨sc, rfl⟩)
    rw [Xv6.runCalls] at hr
    cases hq : (sc.thread p).run c.state with
    | stop e' s =>
      rw [hq] at hr
      cases hr
      obtain ⟨c', h⟩ := Pool.Run.panics _ hstart (upd_same _ _ _) hq
      exact ⟨c', p, h⟩
    | ok a s =>
      rw [hq] at hr
      obtain ⟨mode, h⟩ := Pool.Run.finish (fun _ _ _ => true) (fun _ _ _ _ => trivial) _
        hstart (upd_same _ _ _) (Pool.meets_true _ _ _ _) hq
      refine ih _ h (fun q => ?_) hr
      change upd (upd c.thread p _) p (.ret ()) q = _
      rw [upd_upd]
      by_cases hqp : q = p
      · rw [hqp, upd_same]
      · rw [upd_ne hqp, hidle]

/-- The run ends in the panic `e`. -/
def panicsWith (e : Panic) : Res State Panic Unit → Bool
  | .stop (some e') _ => decide (e' = e)
  | _ => false

lemma exists_of_panicsWith {e : Panic} {r : Res State Panic Unit} (h : panicsWith e r = true) :
    ∃ s, r = .stop (some e) s := by
  match r with
  | .stop (some e') s => exact ⟨s, by rw [of_decide_eq_true h]⟩
  | .stop none _ => cases h
  | .ok _ _ => cases h

/-- A child of the first process makes a directory, moves there, removes it and exits. -/
def removedCwd : List (Nat × Syscall) :=
  [(0, .fork (some 1)), (1, .mkdir (some [100])), (1, .chdir (some [100])),
    (1, .unlink (some [46, 46, 47, 100])), (1, .exit)]

lemma removedCwd_panics : (Mkfs.main []).any (fun img =>
    panicsWith .writeOutsideOfTrans (runCalls removedCwd (boot img.sect))) = true := by
  decide +kernel

/-- `exit` drops the last reference to a removed directory outside of a transaction, and `log_write`
panics. -/
theorem exit_writes_outside_transaction : ∃ img, Mkfs.main [] = some img ∧
    ∃ c p, Machine.Run (fun _ _ _ => True) (Machine.start (boot img.sect)) c ∧
      c.thread p = .panic .writeOutsideOfTrans := by
  obtain ⟨img, himg, hp⟩ := (Option.any_eq_true _ _).mp removedCwd_panics
  obtain ⟨s, hs⟩ := exists_of_panicsWith hp
  exact ⟨img, himg, Machine.Run.runCalls removedCwd _ .refl (fun _ => rfl) hs⟩

/-- `Harmless` as a test. -/
def harmless (m : Bool) (l : Label) (s : State) : Bool :=
  m || match l with
    | .iput k => !(s.inode k).lastUnlinked
    | .bmapTest zero => !zero
    | _ => true

lemma harmless_of_test (m : Bool) (l : Label) (s : State) (h : harmless m l s = true) :
    Harmless m l s := by
  intro hm
  subst hm
  cases l with
  | iput k => simpa [harmless] using h
  | bmapTest zero => simpa [harmless] using h
  | _ => trivial

lemma mkdir_harmless : (Mkfs.main []).any (fun img =>
    Pool.meets transMonitor.next harmless (Syscall.thread 0 (.mkdir (some [100]))) false
      (boot img.sect) &&
    match (Syscall.thread 0 (.mkdir (some [100]))).run (boot img.sect) with
      | .ok _ s => !s.log.busy
      | .stop _ _ => false) = true := by
  decide +kernel

/-- The steps of `mkdir` on a new file system are harmless, and it ends without a transaction. -/
theorem mkdir_in_transaction : ∃ img, Mkfs.main [] = some img ∧
    ∃ c : Machine, Machine.Run Harmless (Machine.start (boot img.sect)) c ∧
      c.state.log.busy = false ∧ ∀ p, c.thread p ≠ .panic .writeOutsideOfTrans := by
  obtain ⟨img, himg, h⟩ := (Option.any_eq_true _ _).mp mkdir_harmless
  rw [Bool.and_eq_true] at h
  obtain ⟨hm, hrun⟩ := h
  have hstart : Machine.Run Harmless (Machine.start (boot img.sect)) _ :=
    Pool.Run.step .refl (.start 0 rfl ⟨.mkdir (some [100]), rfl⟩)
  cases hr : (Syscall.thread 0 (.mkdir (some [100]))).run (boot img.sect) with
  | stop e s => rw [hr] at hrun; cases hrun
  | ok a s =>
    rw [hr] at hrun
    obtain ⟨mode, h⟩ := Pool.Run.finish _ harmless_of_test _ hstart (upd_same _ _ _) hm hr
    exact ⟨img, himg, _, h, by simpa using hrun, (logWrite_in_transaction h).2.2⟩

end Xv6
