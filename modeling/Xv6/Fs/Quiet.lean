import Xv6.Fs.Dir

/-!
# Code that takes and drops nothing

What works on the disk, the log and the contents of a locked inode leaves alone who refers to what:
the file table, the processes, the pipes, and the reference counts and locks of the inode cache.
-/

namespace Xv6

open Lib Prog

/-- The tables outside the inode cache are the same. -/
structure SameTables (s s' : State) : Prop where
  file : s'.file = s.file
  proc : s'.proc = s.proc
  pipe : s'.pipe = s.pipe
  freelist : s'.freelist = s.freelist

/-- The reference counts and the locks of the inode cache are the same too. -/
structure Quiet (s s' : State) : Prop extends SameTables s s' where
  ref : ∀ k, (s'.inode k).ref = (s.inode k).ref
  busy : ∀ k, (s'.inode k).busy = (s.inode k).busy

section Quiet

variable {α : Type} {s s' s'' : State} {dev b i k n p off : Nat}

@[refl] lemma SameTables.refl (s : State) : SameTables s s := ⟨rfl, rfl, rfl, rfl⟩

lemma SameTables.trans (h : SameTables s s') (h' : SameTables s' s'') : SameTables s s'' :=
  ⟨h'.file.trans h.file, h'.proc.trans h.proc, h'.pipe.trans h.pipe, h'.freelist.trans h.freelist⟩

lemma SameTables.setInode {f : Inode → Inode} :
    SameTables s (s.setInode k f) := ⟨rfl, rfl, rfl, rfl⟩

lemma SameTables.quiet (h : SameTables s s') (hi : s'.inode = s.inode) : Quiet s s' :=
  ⟨h, fun _ => by rw [hi], fun _ => by rw [hi]⟩

@[refl] lemma Quiet.refl (s : State) : Quiet s s := (SameTables.refl s).quiet rfl

lemma Quiet.trans (h : Quiet s s') (h' : Quiet s' s'') : Quiet s s'' :=
  ⟨h.toSameTables.trans h'.toSameTables, fun k => (h'.ref k).trans (h.ref k),
    fun k => (h'.busy k).trans (h.busy k)⟩

/-- Fields of an inode other than `ref` and `busy` are changed. -/
lemma Quiet.setInode {f : Inode → Inode} (hf : ∀ ip : Inode, (f ip).ref = ip.ref)
    (hb : ∀ ip : Inode, (f ip).busy = ip.busy) : Quiet s (s.setInode k f) := by
  refine ⟨SameTables.setInode, fun j => ?_, fun j => ?_⟩
  all_goals
    by_cases hj : j = k
    · rw [hj, State.setInode_inode_same]
      first | exact hf _ | exact hb _
    · rw [State.setInode_inode_ne _ _ hj]

/-! ### Rules -/

lemma quiet_read {f : State → α} :
    (read f).acts Quiet := ⟨fun s _ => Quiet.refl s, fun _ => trivial⟩

lemma quiet_write {u : State → State} (h : ∀ s, Quiet s (u s)) : (write u).acts Quiet :=
  ⟨fun s _ => h s, fun _ => trivial⟩

lemma acts_when {R : State → State → Prop} {c : Prop} [Decidable c] {q : K Unit} (h : q.acts R) :
    (K.when c q).acts R := acts_ite h trivial

/-- Nothing is said of calls that do not return. -/
abbrev AnyStop : Option Panic → State → Prop := fun _ _ => True

lemma wp_of_quiet {q : K α} (h : q.acts Quiet) : q.wp (fun _ s' => Quiet s s') AnyStop s :=
  wp_mono (wp_of_acts Quiet.refl (fun _ _ _ h h' => h.trans h') h s) (fun _ _ h => h)
    fun _ _ _ => trivial

/-! ### Blocks and the log -/

lemma quiet_bread : (bread dev b).acts Quiet :=
  ⟨fun s _ => Quiet.refl s, fun _ => acts_ite trivial (acts_ite trivial trivial)⟩

lemma quiet_readsb : (readsb dev).acts Quiet := acts_bind quiet_bread fun _ => trivial

lemma quiet_logWrite {data : Bytes} : (logWrite b data).acts Quiet := by
  refine ⟨fun s _ => ?_, fun s => acts_ite trivial (acts_ite trivial trivial)⟩
  change Quiet s (ite _ _ _)
  split_ifs
  · exact Quiet.refl s
  · exact SameTables.quiet ⟨rfl, rfl, rfl, rfl⟩ rfl

lemma quiet_beginTrans : beginTrans.acts Quiet :=
  ⟨fun _ _ => SameTables.quiet ⟨rfl, rfl, rfl, rfl⟩ rfl, fun _ => trivial⟩

lemma installTrans_quiet (lh : List Nat) : ∀ tail s, Quiet s (installTrans lh tail s) := by
  induction lh with
  | nil => exact fun _ s => Quiet.refl s
  | cons b lh ih =>
    intro tail s
    have hstep : Quiet s { s with sector := upd s.sector b (s.sector (s.log.start + tail + 1)) } :=
      SameTables.quiet ⟨rfl, rfl, rfl, rfl⟩ rfl
    exact hstep.trans (ih _ _)

lemma commit_quiet (s : State) : Quiet s (commit s) := by
  unfold commit
  split_ifs
  · exact Quiet.refl s
  · have hhead : ∀ s, Quiet s (writeHead s) := fun s => SameTables.quiet ⟨rfl, rfl, rfl, rfl⟩ rfl
    have hinstall := (hhead s).trans (installTrans_quiet (writeHead s).log.lh 0 (writeHead s))
    have hclear : ∀ s : State, Quiet s { s with log := { s.log with lh := [] } } :=
      fun s => SameTables.quiet ⟨rfl, rfl, rfl, rfl⟩ rfl
    exact (hinstall.trans (hclear _)).trans (hhead _)

lemma quiet_commitTrans : commitTrans.acts Quiet :=
  ⟨fun s _ => (commit_quiet s).trans (SameTables.quiet ⟨rfl, rfl, rfl, rfl⟩ rfl), fun _ => trivial⟩

lemma quiet_ballocLoop {sb : Superblock} : ∀ n b, (ballocLoop dev sb b n).acts Quiet
  | 0, _ => trivial
  | n + 1, b => acts_bind quiet_bread fun bp => by
    cases freeBit bp 0 (min BPB (sb.size - b)) with
    | none => exact quiet_ballocLoop n _
    | some bi =>
      exact acts_bind quiet_logWrite fun _ =>
        acts_bind (acts_bind quiet_bread fun _ => quiet_logWrite) fun _ => trivial

lemma quiet_balloc : (balloc dev).acts Quiet := acts_bind quiet_readsb fun _ => quiet_ballocLoop _ _

lemma quiet_bfree : (bfree dev b).acts Quiet :=
  acts_bind quiet_readsb fun _ => acts_bind quiet_bread fun _ => acts_ite quiet_logWrite trivial

/-! ### Inodes -/

/-- The words of `addrs` and the one after them are neither a `ref` nor `flags`. -/
lemma quiet_setAddr {v : Nat} (hi : i ≤ NDIRECT + 1) : (setAddr k i v).acts Quiet := by
  refine quiet_write fun s => ?_
  have hi : i ≤ 12 := hi
  have hword : ∀ (ip : Inode) w, w ≠ 2 → w ≠ 3 →
      (ip.setWord w v).ref = ip.ref ∧ (ip.setWord w v).busy = ip.busy := fun ip w h2 h3 => by
    unfold Inode.setWord
    split <;> first | exact ⟨rfl, rfl⟩ | exact absurd rfl h2 | exact absurd rfl h3
  have hentry : ∀ j, (addrsSet s.inode k i v j).ref = (s.inode j).ref ∧
      (addrsSet s.inode k i v j).busy = (s.inode j).busy := fun j => by
    unfold addrsSet upd
    split
    next hj =>
      rw [hj]
      exact hword _ _ (by simp only [INODEWORDS, ADDRSWORD, NDIRECT]; omega)
        (by simp only [INODEWORDS, ADDRSWORD, NDIRECT]; omega)
    next => exact ⟨rfl, rfl⟩
  exact ⟨⟨rfl, rfl, rfl, rfl⟩, fun j => (hentry j).1, fun j => (hentry j).2⟩

lemma quiet_bmapTest {addr : Nat} : (bmapTest addr).acts Quiet :=
  ⟨fun s _ => Quiet.refl s, fun _ => trivial⟩

lemma quiet_bmapEntry : (bmapEntry dev b i).acts Quiet :=
  acts_bind quiet_bread fun _ => acts_bind quiet_bmapTest fun _ =>
    acts_ite (acts_bind quiet_balloc fun _ => acts_bind quiet_logWrite fun _ => trivial) trivial

lemma quiet_bmapAddr (hi : i ≤ NDIRECT + 1) : (bmapAddr k i).acts Quiet :=
  acts_bind quiet_read fun _ => acts_bind quiet_read fun _ => acts_bind quiet_bmapTest fun _ =>
    acts_ite (acts_bind quiet_balloc fun _ => acts_bind (quiet_setAddr hi) fun _ => trivial) trivial

lemma quiet_bmap {bn : Nat} : (bmap k bn).acts Quiet := by
  unfold bmap
  generalize NINDIRECT * NINDIRECT = m
  refine acts_bind quiet_read fun dev => ?_
  by_cases h : bn < NDIRECT
  · rw [if_pos h]
    exact quiet_bmapAddr (Nat.le_succ_of_le h.le)
  · rw [if_neg h]
    refine acts_ite (acts_bind (quiet_bmapAddr (Nat.le_succ _)) fun _ => quiet_bmapEntry) ?_
    exact acts_ite (acts_bind (quiet_bmapAddr le_rfl) fun _ => acts_bind quiet_bmapEntry fun _ =>
      quiet_bmapEntry) trivial

lemma quiet_iupdate : (iupdate k).acts Quiet :=
  acts_bind quiet_read fun _ => acts_bind quiet_bread fun _ => quiet_logWrite

lemma quiet_itruncDirect : ∀ n i, i + n ≤ NDIRECT → (itruncDirect k i n).acts Quiet
  | 0, _, _ => trivial
  | n + 1, i, h => acts_bind quiet_read fun _ => acts_bind quiet_read fun _ =>
    acts_ite (quiet_itruncDirect n _ (by omega)) (acts_bind quiet_bfree fun _ =>
      acts_bind (quiet_setAddr (by omega)) fun _ => quiet_itruncDirect n _ (by omega))

lemma quiet_itruncEntries {bp : Bytes} : ∀ n j, (itruncEntries dev bp j n).acts Quiet
  | 0, _ => trivial
  | n + 1, _ => acts_ite (quiet_itruncEntries n _)
    (acts_bind quiet_bfree fun _ => quiet_itruncEntries n _)

lemma quiet_itrunc : (itrunc k).acts Quiet :=
  acts_bind (quiet_itruncDirect _ _ (by omega)) fun _ => acts_bind quiet_read fun _ =>
    acts_bind quiet_read fun _ => acts_bind (acts_when (acts_bind quiet_bread fun _ =>
      acts_bind (quiet_itruncEntries _ _) fun _ => acts_bind quiet_bfree fun _ =>
        quiet_setAddr (by omega))) fun _ =>
      acts_bind (quiet_write fun _ => Quiet.setInode (fun _ => rfl) fun _ => rfl) fun _ =>
        quiet_iupdate

/-! ### Contents -/

lemma quiet_consolereadLoop {target : Nat} : ∀ n, (consolereadLoop p target n).acts Quiet
  | 0 => trivial
  | n + 1 => by
    refine acts_option ⟨fun s _ => ?_, fun _ => trivial⟩ trivial fun c => acts_ite trivial <|
      acts_ite trivial <| acts_bind (quiet_consolereadLoop n) fun _ => trivial
    dsimp only
    split
    · exact Quiet.refl s
    · split_ifs
      · exact Quiet.refl s
      · exact SameTables.quiet ⟨rfl, rfl, rfl, rfl⟩ rfl

lemma quiet_readiLoop : ∀ fuel off n, (readiLoop k off n fuel).acts Quiet
  | 0, _, _ => trivial
  | fuel + 1, _, _ => acts_ite trivial (acts_bind quiet_read fun _ => acts_bind quiet_bmap fun _ =>
    acts_bind quiet_bread fun _ => acts_bind (quiet_readiLoop fuel _ _) fun _ => trivial)

lemma quiet_writeiLoop : ∀ fuel off (src : List Byte), (writeiLoop k off src fuel).acts Quiet
  | 0, _, _ => trivial
  | fuel + 1, _, _ => acts_ite trivial (acts_bind quiet_read fun _ => acts_bind quiet_bmap fun _ =>
    acts_bind quiet_bread fun _ => acts_bind quiet_logWrite fun _ => quiet_writeiLoop fuel _ _)

end Quiet

/-! ### The inode cache

Who refers to an inode may change here, the tables outside the cache do not. -/

section Tables

variable {α : Type} {k : Nat}

lemma tables_quiet {q : K α} (hq : q.acts Quiet) : q.acts SameTables :=
  acts_mono hq fun _ _ h => h.toSameTables

lemma tables_setInode {f : Inode → Inode} : (write fun s => s.setInode k f).acts SameTables :=
  ⟨fun _ _ => SameTables.setInode, fun _ => trivial⟩

lemma tables_iput : (iput k).acts SameTables := by
  refine acts_bind ⟨fun _ _ => SameTables.setInode, fun _ => acts_ite trivial trivial⟩
    fun _ => acts_when ?_
  exact acts_bind (tables_quiet quiet_itrunc) fun _ => acts_bind tables_setInode fun _ =>
    acts_bind (tables_quiet quiet_iupdate) fun _ => tables_setInode

end Tables

end Xv6
