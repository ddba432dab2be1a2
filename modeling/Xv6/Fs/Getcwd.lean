import Xv6.Fs.Mkfs
import Xv6.Fs.Lookup
import Xv6.Fs.Quiet

/-!
# References taken by `getcwd`

`namediNode` calls `namei("/")` at every level and never drops the reference it gets. The references
of the inode cache are counted: whatever else a call does, there are more of them when it returns.
-/

namespace Xv6

open Lib Prog

/-! ### Code that keeps reference counts -/

/-- Reference counts are the same. -/
def SameRefs (s s' : State) : Prop := ∀ k, (s'.inode k).ref = (s.inode k).ref

section Frames

variable {α : Type} {k n p off : Nat}

lemma same_of_quiet {q : K α} (h : q.acts Quiet) : q.acts SameRefs :=
  acts_mono h fun _ _ hq => hq.ref

lemma same_read {f : State → α} : (read f).acts SameRefs := same_of_quiet quiet_read

lemma same_write {u : State → State} (h : ∀ s, SameRefs s (u s)) : (write u).acts SameRefs :=
  ⟨fun s _ => h s, fun _ => trivial⟩

/-- A field of an inode other than `ref` is changed. -/
lemma SameRefs.setInode {s : State} {f : Inode → Inode} (hf : ∀ ip : Inode, (f ip).ref = ip.ref) :
    SameRefs s (s.setInode k f) := fun j => by
  by_cases hj : j = k
  · rw [hj, State.setInode_inode_same, hf]
  · rw [State.setInode_inode_ne _ _ hj]

lemma same_ilock : (ilock k).acts SameRefs := by
  refine acts_bind same_read fun _ => acts_ite trivial (acts_bind ⟨fun s _ => ?_, fun _ => trivial⟩
    fun _ => acts_bind same_read fun _ => acts_when (acts_bind (same_of_quiet quiet_bread) fun _ =>
      acts_bind (same_write fun s => ?_) fun _ => acts_when trivial))
  · exact SameRefs.setInode fun _ => rfl
  · exact SameRefs.setInode fun _ => rfl

lemma same_iunlock : (iunlock k).acts SameRefs :=
  acts_bind same_read fun _ => acts_ite trivial (same_write fun _ => SameRefs.setInode fun _ => rfl)

lemma same_readi : (readi p k off n).acts SameRefs := by
  refine acts_bind same_read fun ip => acts_ite (acts_ite ?_ trivial) ?_
  · exact acts_bind same_iunlock fun _ => acts_bind (same_of_quiet (quiet_consolereadLoop _))
      fun _ => acts_bind same_ilock fun _ => trivial
  · cases readiLen ip.size off n with
    | none => trivial
    | some m => exact acts_bind (same_of_quiet (quiet_readiLoop _ _ _)) fun _ => trivial

lemma same_readDirent {e : Panic} : (readDirent k off e).acts SameRefs :=
  acts_bind same_readi fun _ => acts_ite trivial trivial

lemma same_iNodeNameLoop {inum : Nat} : ∀ fuel off, (iNodeNameLoop k inum off fuel).acts SameRefs
  | 0, _ => trivial
  | fuel + 1, _ => acts_bind same_read fun _ => acts_ite (acts_bind same_readDirent fun _ =>
    acts_ite trivial (same_iNodeNameLoop fuel _)) trivial

lemma same_iNodeName {ip : Nat} : (iNodeName ip k).acts SameRefs :=
  acts_bind same_read fun _ => acts_bind same_read fun _ => same_iNodeNameLoop _ _

end Frames

/-! ### Counting references -/

/-- The references to all inodes of the cache. -/
def State.refs (s : State) : Int := ∑ k ∈ Finset.range NINODE, (s.inode k).ref

section Refs

variable {s s' : State} {k : Nat} {α : Type}

lemma SameRefs.refs (h : SameRefs s s') : s'.refs = s.refs := Finset.sum_congr rfl fun k _ => h k

/-- One entry of the cache is changed. -/
lemma refs_setInode {f : Inode → Inode} (hk : k < NINODE) :
    (s.setInode k f).refs = s.refs + ((f (s.inode k)).ref - (s.inode k).ref) := by
  have hdiff : ∀ j, ((s.setInode k f).inode j).ref =
      (s.inode j).ref + if j = k then (f (s.inode k)).ref - (s.inode k).ref else 0 := fun j => by
    by_cases hj : j = k
    · rw [hj, State.setInode_inode_same, if_pos rfl]
      omega
    · rw [State.setInode_inode_ne _ _ hj, if_neg hj, add_zero]
  unfold State.refs
  rw [Finset.sum_congr rfl fun j _ => hdiff j, Finset.sum_add_distrib, Finset.sum_ite_eq',
    if_pos (Finset.mem_range.mpr hk)]

lemma wp_same {q : K α} (h : q.acts SameRefs) :
    q.wp (fun _ s' => SameRefs s s') AnyStop s :=
  wp_mono (wp_of_acts (fun _ _ => rfl) (fun _ _ _ h h' k => (h' k).trans (h k)) h s)
    (fun _ _ h => h) fun _ _ _ => trivial

lemma wp_refs {q : K α} (h : q.acts SameRefs) : q.wp (fun _ s' => s'.refs = s.refs) AnyStop s :=
  wp_mono (wp_same h) (fun _ _ h => h.refs) fun _ _ h => h

/-- `iget` takes a reference. -/
lemma refs_iget (dev inum : Nat) :
    (iget dev inum).wp (fun k s' => k < NINODE ∧ s'.refs = s.refs + 1) AnyStop s := by
  unfold iget
  rw [wp_act, if_pos rfl]
  rcases h : igetSlot s.inode dev inum with ⟨found, empty⟩
  obtain ⟨hfound, hempty⟩ := Prod.mk.inj h
  cases found with
  | some k =>
    have hk : k < NINODE := by simpa using (findFrom_some hfound).2.1
    refine ⟨hk, ?_⟩
    change (s.setInode k _).refs = _
    rw [refs_setInode hk]
    simp only
    omega
  | none =>
    cases empty with
    | some k =>
      have hk : k < NINODE := by simpa using (findFrom_some hempty).2.1
      have h0 : (s.inode k).ref = 0 := of_decide_eq_true (findFrom_some hempty).2.2.1
      refine ⟨hk, ?_⟩
      change (s.setInode k _).refs = _
      rw [refs_setInode hk, h0]
      rfl
    | none => trivial

/-- `iput` drops one, also when it frees the inode. -/
lemma refs_iput (hk : k < NINODE) :
    (iput k).wp (fun _ s' => s'.refs = s.refs - 1) AnyStop s := by
  unfold iput
  rw [wp_bind, wp_act, if_pos rfl]
  split_ifs with hbusy
  · trivial
  rw [wp_ret]
  cases hlast : (s.inode k).lastUnlinked with
  | false =>
    change (s.setInode k _).refs = _
    rw [refs_setInode hk, hlast]
    simp only [Bool.false_eq_true, if_false]
    omega
  | true =>
    have hsame : SameRefs s (s.setInode k fun ip =>
        if ip.lastUnlinked then { ip with busy := true } else { ip with ref := ip.ref - 1 }) := by
      intro j
      by_cases hj : j = k
      · rw [hj, State.setInode_inode_same, hlast]
        rfl
      · rw [State.setInode_inode_ne _ _ hj]
    refine wp_call (wp_refs (same_of_quiet quiet_itrunc)) fun _ s1 h1 => ?_
    refine wp_call (wp_refs (same_write fun _ => SameRefs.setInode fun _ => rfl)) fun _ s2 h2 => ?_
    refine wp_call (wp_refs (same_of_quiet quiet_iupdate)) fun _ s3 h3 => ?_
    change (s3.setInode k _).refs = _
    rw [refs_setInode hk, h3, h2, h1, hsame.refs]
    simp only
    omega

end Refs

/-! ### `getcwd` -/

section Getcwd

variable {s : State} {p ip : Nat} {n : Int}

/-- `namei("/")` takes a reference to the root directory. -/
lemma refs_namei_root : (namei p [slash]).wp (fun _ s' => s'.refs = s.refs + 1) AnyStop s := by
  have hnamex : (namex p [slash] false).wp (fun _ s' => s'.refs = s.refs + 1) AnyStop s :=
    wp_call (refs_iget ROOTDEV ROOTINO) fun _ _ h => h.2
  exact wp_call hnamex fun _ _ h => h

lemma refs_dirlookupLoop {k : Nat} {name : List Byte} (fuel : Nat) : ∀ off s,
    (dirlookupLoop k name off fuel).wp (fun r s' => s.refs ≤ s'.refs ∧
      ∀ k' off', r = some (k', off') → k' < NINODE ∧ s'.refs = s.refs + 1) AnyStop s := by
  induction fuel with
  | zero => exact fun off s => ⟨le_rfl, nofun⟩
  | succ fuel ih =>
    intro off s
    refine wp_call (wp_refs same_read) fun dp s1 h1 => ?_
    split_ifs
    · refine wp_call (wp_refs same_readDirent) fun de s2 h2 => ?_
      split_ifs
      · refine wp_call (refs_iget _ _) fun k' s3 h3 => ?_
        refine ⟨by omega, fun k'' off' he => ?_⟩
        obtain ⟨rfl, -⟩ := Prod.mk.inj (Option.some.inj he)
        exact ⟨h3.1, by omega⟩
      · refine wp_mono (ih _ s2) (fun r s3 h3 => ?_) fun _ _ h => h
        rw [h2, h1] at h3
        exact h3
    · exact ⟨by omega, nofun⟩

lemma refs_dirlookup {k : Nat} {name : List Byte} :
    (dirlookup k name).wp (fun r s' => s.refs ≤ s'.refs ∧
      ∀ k' off', r = some (k', off') → k' < NINODE ∧ s'.refs = s.refs + 1) AnyStop s := by
  refine wp_call (wp_refs same_read) fun dp s1 h1 => ?_
  split_ifs
  · trivial
  · rw [← h1]
    exact refs_dirlookupLoop _ _ _

/-- A level drops at most the reference to the parent, which it has taken. -/
lemma refs_namediNode (fuel : Nat) : ∀ ip s,
    (namediNode p n ip fuel).wp (fun _ s' => s.refs + min fuel 1 ≤ s'.refs) AnyStop s := by
  induction fuel with
  | zero =>
    intro ip s
    change s.refs + _ ≤ s.refs
    simp
  | succ fuel ih =>
    intro ip s
    refine wp_call refs_namei_root fun root s1 h1 => ?_
    cases root with
    | none => trivial
    | some root =>
      refine wp_call (wp_refs same_read) fun i s2 h2 => ?_
      refine wp_call (wp_refs same_read) fun r s3 h3 => ?_
      have hmin : ((min (fuel + 1) 1 : Nat) : Int) = 1 := by omega
      rw [hmin]
      split_ifs
      · change s.refs + 1 ≤ s3.refs
        omega
      · refine wp_call refs_dirlookup fun d s4 h4 => ?_
        cases d with
        | none => trivial
        | some d =>
          obtain ⟨hk, h4⟩ := h4.2 d.1 d.2 rfl
          refine wp_call (wp_refs same_ilock) fun _ s5 h5 => ?_
          refine wp_call (wp_refs same_iNodeName) fun name s6 h6 => ?_
          cases name with
          | none => trivial
          | some name =>
            refine wp_call (ih _ s6) fun off s7 h7 => ?_
            have h7' : s6.refs ≤ s7.refs := by omega
            dsimp only
            split_ifs
            · change s.refs + 1 ≤ s7.refs
              omega
            · refine wp_call (refs_iput hk) fun _ s8 h8 => ?_
              change s.refs + 1 ≤ s8.refs
              omega
      · trivial
      · trivial

end Getcwd

/-- When `getcwd` returns, the inode cache is as before iff its arguments were refused. -/
theorem getcwd_keeps_cache_iff {s s' : State} {p ptr : Nat} {n r : Int}
    (hrun : (sysGetcwd p ptr n).run s = .ok r s') :
    ((∀ k < NINODE, (s'.inode k).ref = (s.inode k).ref) ∧
      ∀ k < NINODE, (s'.inode k).busy = true → (s.inode k).busy = true) ↔
    argptr (s.proc p).sz ptr n = none := by
  cases harg : argptr (s.proc p).sz ptr n with
  | none =>
    have hs : (sysGetcwd p ptr n).run s = .ok 1 s := by
      simp [sysGetcwd, run_bind, Res.andThen, read, harg]
    rw [hs] at hrun
    obtain ⟨-, rfl⟩ := Res.ok.inj hrun
    exact iff_of_true ⟨fun _ _ => rfl, fun _ _ h => h⟩ rfl
  | some _ =>
    have hmore : s.refs + 1 ≤ s'.refs := by
      refine wp_ok (E := AnyStop) (Q := fun _ s' => s.refs + 1 ≤ s'.refs) ?_ hrun
      simp only [sysGetcwd, wp_read, harg]
      cases (s.proc p).cwd with
      | none => trivial
      | some cwd => exact refs_namediNode (NINODE + 1) cwd s
    refine iff_of_false (fun h => ?_) (by simp)
    have : s'.refs = s.refs := Finset.sum_congr rfl fun k hk => h.1 k (Finset.mem_range.mp hk)
    omega

/-- Process 0 gets memory, makes a directory and moves there. -/
def intoDir : K Unit := do
  let _ ← (Syscall.sbrk 4096).code 0
  let _ ← (Syscall.mkdir (some [100])).code 0
  let _ ← (Syscall.chdir (some [100])).code 0

/-- `getcwd` there returns, with the root directory locked and two references more to it. -/
lemma intoDir_getcwd : (Mkfs.main []).any (fun img =>
    match intoDir.run (boot img.sect) with
    | .ok _ s =>
      match (sysGetcwd 0 0 16).run s with
      | .ok r s' => decide (r = 3 ∧ (s'.inode 0).ref = (s.inode 0).ref + 2) &&
        (s'.inode 0).busy && !(s.inode 0).busy
      | .stop _ _ => false
    | .stop _ _ => false) = true := by
  decide +kernel

lemma exists_intoDir : ∃ img s s', Mkfs.main [] = some img ∧
    intoDir.run (boot img.sect) = .ok () s ∧
    (sysGetcwd 0 0 16).run s = .ok 3 s' ∧ (s'.inode 0).ref = (s.inode 0).ref + 2 ∧
    (s'.inode 0).busy = true ∧ (s.inode 0).busy = false := by
  obtain ⟨img, himg, h⟩ := (Option.any_eq_true _ _).mp intoDir_getcwd
  cases hs : intoDir.run (boot img.sect) with
  | stop e s => rw [hs] at h; cases h
  | ok _ s =>
    cases hs' : (sysGetcwd 0 0 16).run s with
    | stop e s' => rw [hs] at h; simp [hs'] at h
    | ok r s' =>
      rw [hs] at h
      simp only [hs', Bool.and_eq_true, decide_eq_true_eq, Bool.not_eq_true'] at h
      obtain ⟨⟨⟨rfl, h1⟩, h2⟩, h3⟩ := h
      exact ⟨img, s, s', himg, hs, hs', h1, h2, h3⟩

theorem getcwd_keeps_cache_iff_subdir : ∃ s s', (sysGetcwd 0 0 16).run s = .ok 3 s' ∧
    argptr (s.proc 0).sz 0 16 ≠ none := by
  obtain ⟨img, s, s', -, -, hrun, href, -⟩ := exists_intoDir
  refine ⟨s, s', hrun, fun harg => ?_⟩
  have := ((getcwd_keeps_cache_iff hrun).mpr harg).1 0 (by decide)
  omega

/-- `getcwd` in a subdirectory of the root keeps references to the root and leaves it locked. -/
theorem getcwd_leaves_root_locked : ∃ img s s', Mkfs.main [] = some img ∧
    intoDir.run (boot img.sect) = .ok () s ∧ (sysGetcwd 0 0 16).run s = .ok 3 s' ∧
    ¬(∀ k < NINODE, (s'.inode k).ref = (s.inode k).ref) ∧
    ¬∀ k < NINODE, (s'.inode k).busy = true → (s.inode k).busy = true := by
  obtain ⟨img, s, s', himg, hs, hrun, href, hbusy, hfree⟩ := exists_intoDir
  refine ⟨img, s, s', himg, hs, hrun, fun h => ?_, fun h => ?_⟩
  · have := h 0 (by decide)
    omega
  · rw [h 0 (by decide) hbusy] at hfree
    cases hfree

end Xv6
