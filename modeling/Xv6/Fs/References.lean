import Xv6.Fs.Sysfile
import Xv6.Fs.Quiet
import Xv6.Fs.Lookup

/-!
# References to the inode cache

Every reference to an entry of the inode cache belongs to a table (an open file or a current
directory) or to the call that is running. The functions of `fs.c` are specified by the references
they take and drop and by the entries they lock and unlock; from this each system call that works on
no table puts back what it takes, whatever exit it leaves by.
-/

namespace Xv6

open Lib Prog List

/-- The accounts of the inode cache: besides the `n k` references of the tables to entry `k` there
are those in `H`, which the running call has, and it has locked the entries in `L`. The tables are
those of `t`. -/
structure Accounts (t : State) (n : Nat → Nat) (H L : List Nat) (s : State) : Prop where
  tables : SameTables t s
  ref : ∀ k < NINODE, (s.inode k).ref = ((n k + H.count k : Nat) : Int)
  lt : ∀ k, 0 < n k + H.count k → k < NINODE
  busy : ∀ k < NINODE, ((s.inode k).busy = true ↔ k ∈ L)
  held : ∀ k ∈ L, 0 < n k + H.count k
  nodup : L.Nodup

section Accounts

variable {α : Type} {t s s' : State} {n : Nat → Nat} {H H' L L' : List Nat} {k : Nat}

lemma Accounts.perm (h : Accounts t n H L s) (hH : H.Perm H') (hL : L.Perm L') :
    Accounts t n H' L' s := by
  refine ⟨h.tables, fun k hk => ?_, fun k hk => ?_, fun k hk => ?_, fun k hk => ?_,
    hL.nodup_iff.mp h.nodup⟩
  · rw [← hH.count_eq]
    exact h.ref k hk
  · rw [← hH.count_eq] at hk
    exact h.lt k hk
  · rw [← hL.mem_iff]
    exact h.busy k hk
  · rw [← hH.count_eq]
    exact h.held k (hL.mem_iff.mpr hk)

lemma Accounts.quiet (h : Accounts t n H L s) (hq : Quiet s s') : Accounts t n H L s' := by
  refine ⟨h.tables.trans hq.toSameTables, fun k hk => ?_, h.lt, fun k hk => ?_, h.held, h.nodup⟩
  · rw [hq.ref]
    exact h.ref k hk
  · rw [hq.busy]
    exact h.busy k hk

/-- References pass between the tables and the running call. -/
lemma Accounts.regroup {n' : Nat → Nat} (h : Accounts t n H L s) (hi : s'.inode = s.inode)
    (heq : ∀ k, n' k + H'.count k = n k + H.count k) : Accounts s' n' H' L s' := by
  refine ⟨SameTables.refl s', fun k hk => ?_, fun k hk => h.lt k (heq k ▸ hk), fun k hk => ?_,
    fun k hk => ?_, h.nodup⟩
  · rw [hi, heq]
    exact h.ref k hk
  · rw [hi]
    exact h.busy k hk
  · rw [heq]
    exact h.held k hk

lemma Accounts.mem_lt (h : Accounts t n H L s) (hk : k ∈ H) : k < NINODE :=
  h.lt k (Nat.add_pos_right _ (count_pos_iff.mpr hk))

lemma Accounts.locked_lt (h : Accounts t n H L s) (hk : k ∈ L) : k < NINODE := h.lt k (h.held k hk)

/-- One entry is changed. -/
lemma Accounts.change (h : Accounts t n H L s) (H' L' : List Nat) {f : Inode → Inode}
    (hk : k < NINODE)
    (href : (f (s.inode k)).ref = ((n k + H'.count k : Nat) : Int))
    (hbusy : (f (s.inode k)).busy = true ↔ k ∈ L') (hheld : k ∈ L' → 0 < n k + H'.count k)
    (hH : ∀ j, j ≠ k → H'.count j = H.count j) (hL : ∀ j, j ≠ k → (j ∈ L' ↔ j ∈ L))
    (hnodup : L'.Nodup) : Accounts t n H' L' (s.setInode k f) := by
  refine ⟨h.tables.trans SameTables.setInode, fun j hj => ?_, fun j hj => ?_, fun j hj => ?_,
    fun j hj => ?_, hnodup⟩
  all_goals by_cases he : j = k
  · rw [he, State.setInode_inode_same]
    exact href
  · rw [State.setInode_inode_ne _ _ he, hH j he]
    exact h.ref j hj
  · exact he ▸ hk
  · rw [hH j he] at hj
    exact h.lt j hj
  · rw [he, State.setInode_inode_same]
    exact hbusy
  · rw [State.setInode_inode_ne _ _ he, hL j he]
    exact h.busy j hj
  · exact he ▸ hheld (he ▸ hj)
  · rw [hH j he]
    exact h.held j ((hL j he).mp hj)

/-! ### Taking and dropping references -/

/-- With the references `H` and the locks `L`, `q` comes to the references and locks that belong to
its result, unless it panics or waits for ever. -/
def Acc (t : State) (n : Nat → Nat) (H L : List Nat) (q : K α) (H' L' : α → List Nat) : Prop :=
  ∀ s, Accounts t n H L s → q.wp (fun r s' => Accounts t n (H' r) (L' r) s') AnyStop s

/-- `q` leaves references and locks as they are. -/
abbrev Steady (t : State) (n : Nat → Nat) (H L : List Nat) (q : K α) : Prop :=
  Acc t n H L q (fun _ => H) fun _ => L

section Rules

variable {β : Type} {q : K α} {f : α → K β} {I M : α → List Nat} {I' M' : β → List Nat}

lemma Acc.bind (hq : Acc t n H L q I M) (hf : ∀ r, Acc t n (I r) (M r) (f r) I' M') :
    Acc t n H L (q >>= f) I' M' :=
  fun s h => wp_call (hq s h) fun r s1 h1 => hf r s1 h1

lemma acc_ret {r : α} : Steady t n H L (pure r) := fun _ h => h

lemma acc_panic {e : Panic} : Acc t n H L (.panic e) I M := fun _ _ => trivial

lemma acc_quiet (hq : q.acts Quiet) : Steady t n H L q :=
  fun _ h => wp_mono (wp_of_quiet hq) (fun _ _ hs => h.quiet hs) fun _ _ he => he

lemma acc_read {g : State → α} : Steady t n H L (read g) := fun _ h => h

lemma Acc.perm (hq : Acc t n H' L' q I M) (hH : H.Perm H') (hL : L.Perm L') : Acc t n H L q I M :=
  fun s h => hq s (h.perm hH hL)

/-- An entry that the call refers to is one of the cache. -/
lemma Acc.of_lt (hq : k < NINODE → Acc t n (k :: H) L q I M) : Acc t n (k :: H) L q I M :=
  fun s h => hq (h.mem_lt mem_cons_self) s h

end Rules

/-- A reference to an entry that is referred to is copied. -/
lemma Accounts.take (h : Accounts t n H L s) (hk : k < NINODE) {f : Inode → Inode}
    (href : (f (s.inode k)).ref = (s.inode k).ref + 1)
    (hbusy : (f (s.inode k)).busy = (s.inode k).busy) :
    Accounts t n (k :: H) L (s.setInode k f) := by
  refine h.change (k :: H) L hk ?_ ?_ (fun _ => ?_) (fun j hj => count_cons_of_ne hj.symm)
    (fun _ _ => Iff.rfl) h.nodup
  · rw [href, h.ref k hk, count_cons_self]
    omega
  · rw [hbusy]
    exact h.busy k hk
  · rw [count_cons_self]
    omega

lemma acc_iget (dev inum : Nat) : Acc t n H L (iget dev inum) (fun k => k :: H) fun _ => L := by
  intro s h
  unfold iget
  rw [wp_act, if_pos rfl]
  rcases hslot : igetSlot s.inode dev inum with ⟨found, empty⟩
  obtain ⟨hfound, hempty⟩ := Prod.mk.inj hslot
  cases found with
  | some k =>
    have hk : k < NINODE := by simpa using (findFrom_some hfound).2.1
    exact h.take hk rfl rfl
  | none =>
    cases empty with
    | none => trivial
    | some k =>
      have hk : k < NINODE := by simpa using (findFrom_some hempty).2.1
      have h0 : (s.inode k).ref = 0 := of_decide_eq_true (findFrom_some hempty).2.2.1
      have hfree : n k + H.count k = 0 := by
        rw [h.ref k hk] at h0
        exact_mod_cast h0
      -- nobody refers to the entry, so it is not locked either
      have hL : k ∉ L := fun hmem => absurd (h.held k hmem) (by omega)
      refine h.change (k :: H) L hk ?_ ?_ (fun hmem => absurd hmem hL)
        (fun j hj => count_cons_of_ne hj.symm) (fun _ _ => Iff.rfl) h.nodup
      · change (1 : Int) = _
        rw [count_cons_self]
        omega
      · exact ⟨fun hf => absurd hf (by simp), fun hmem => absurd hmem hL⟩

lemma acc_idup (hk : k < NINODE) : Acc t n H L (idup k) (fun r => r :: H) fun _ => L :=
  fun _ h => h.take hk rfl rfl

lemma acc_setInode {f : Inode → Inode} (hf : ∀ ip : Inode, (f ip).ref = ip.ref)
    (hb : ∀ ip : Inode, (f ip).busy = ip.busy) : Steady t n H L (write fun s => s.setInode k f) :=
  acc_quiet (quiet_write fun _ => Quiet.setInode hf hb)

/-- `iput` also drops the reference when it frees the inode. -/
lemma acc_iput (hL : k ∈ L → 0 < n k + H.count k) :
    Acc t n (k :: H) L (iput k) (fun _ => H) fun _ => L := by
  intro s h
  have hk : k < NINODE := h.mem_lt mem_cons_self
  have href := h.ref k hk
  rw [count_cons_self] at href
  have hcount : ∀ j, j ≠ k → H.count j = (k :: H).count j :=
    fun j hj => (count_cons_of_ne hj.symm).symm
  unfold iput
  rw [wp_bind, wp_act, if_pos rfl]
  split_ifs with hbusy
  · trivial
  rw [wp_ret]
  cases hlast : (s.inode k).lastUnlinked with
  | false =>
    refine h.change H L hk ?_ ?_ hL hcount (fun _ _ => Iff.rfl) h.nodup
    · rw [hlast]
      change (s.inode k).ref - 1 = _
      omega
    · rw [hlast]
      exact h.busy k hk
  | true =>
    have hone : n k + H.count k = 0 := by
      have := (of_decide_eq_true hlast).1
      omega
    have hnot : k ∉ L := fun hmem => absurd (hL hmem) (by omega)
    have hset : Accounts t n (k :: H) (k :: L) (s.setInode k fun ip =>
        if ip.lastUnlinked then { ip with busy := true } else { ip with ref := ip.ref - 1 }) := by
      refine h.change _ (k :: L) hk ?_ ?_ (fun _ => ?_) (fun _ _ => rfl) (fun j hj => ?_)
        (nodup_cons.mpr ⟨hnot, h.nodup⟩)
      · rw [hlast, count_cons_self]
        exact href
      · rw [hlast]
        simp
      · rw [count_cons_self]
        omega
      · simp [hj]
    refine wp_call (acc_quiet quiet_itrunc _ hset) fun _ s1 h1 => ?_
    have h2 := h1.quiet (Quiet.setInode (k := k) (f := fun ip => { ip with type := 0 })
      (fun _ => rfl) fun _ => rfl)
    refine wp_write.mpr (wp_call (acc_quiet quiet_iupdate _ h2) fun _ s3 h3 => ?_)
    have href3 := h3.ref k hk
    rw [count_cons_self] at href3
    refine h3.change H L hk ?_ ?_ (fun hmem => absurd hmem hnot) hcount (fun j hj => ?_) h.nodup
    · change (s3.inode k).ref - 1 = _
      omega
    · simp [hnot]
    · simp [hj]

lemma acc_ilock (hk : k < NINODE) : Acc t n H L (ilock k) (fun _ => H) fun _ => k :: L := by
  intro s h
  refine wp_read.mpr ?_
  split_ifs with href
  · trivial
  refine wp_bind.mpr (wp_act.mpr ?_)
  split_ifs with hfree
  · have hnot : k ∉ L := fun hmem => absurd ((h.busy k hk).mpr hmem) (by simpa using hfree)
    have hpos : 0 < n k + H.count k := by
      have := h.ref k hk
      omega
    have hlock : Accounts t n H (k :: L) (s.setInode k fun ip => { ip with busy := true }) := by
      refine h.change H (k :: L) hk (h.ref k hk) (by simp) (fun _ => hpos) (fun _ _ => rfl)
        (fun j hj => ?_) (nodup_cons.mpr ⟨hnot, h.nodup⟩)
      simp [hj]
    rw [wp_ret]
    refine acc_read.bind (fun ip => ?_) _ hlock
    unfold K.when
    split_ifs
    · refine (acc_quiet quiet_bread).bind fun _ => ?_
      refine Acc.bind (acc_setInode (fun _ => rfl) fun _ => rfl) fun _ => ?_
      split_ifs
      · exact acc_panic
      · exact acc_ret
    · exact acc_ret
  · trivial

lemma acc_iunlock (hk : k < NINODE) (h : Accounts t n H L s) :
    (iunlock k).wp (fun _ s' => k ∈ L ∧ Accounts t n H (L.erase k) s') AnyStop s := by
  refine wp_read.mpr ?_
  split_ifs with hbad
  · trivial
  have hbusy : (s.inode k).busy = true := by
    cases hb : (s.inode k).busy with
    | true => rfl
    | false => exact absurd (by simp [hb]) hbad
  refine ⟨(h.busy k hk).mp hbusy, ?_⟩
  have hnot : k ∉ L.erase k := h.nodup.not_mem_erase
  refine h.change H _ hk (h.ref k hk) ?_ (fun hmem => absurd hmem hnot) (fun _ _ => rfl)
    (fun j hj => mem_erase_of_ne hj) (h.nodup.erase k)
  simp [hnot]

lemma acc_unlock : Acc t n H (k :: L) (iunlock k) (fun _ => H) fun _ => L := by
  intro s h
  refine wp_mono (acc_iunlock (h.locked_lt mem_cons_self) h) (fun _ s' h' => ?_) fun _ _ he => he
  rw [erase_cons_head] at h'
  exact h'.2

lemma acc_iunlockput : Acc t n (k :: H) (k :: L) (iunlockput k) (fun _ => H) fun _ => L := by
  intro s h
  have hnot : k ∉ L := (nodup_cons.mp h.nodup).1
  exact acc_unlock.bind (fun _ => acc_iput fun hmem => absurd hmem hnot) s h

lemma acc_iallocLoop {dev : Nat} {type : BitVec 16} (m : Nat) : ∀ inum,
    Acc t n H L (iallocLoop dev type inum m) (fun k => k :: H) fun _ => L := by
  induction m with
  | zero => exact fun _ => acc_panic
  | succ m ih =>
    intro inum
    refine (acc_quiet quiet_bread).bind fun _ => ?_
    dsimp only
    split_ifs
    · exact (acc_quiet quiet_logWrite).bind fun _ => acc_iget _ _
    · exact ih _

lemma acc_ialloc {dev : Nat} {type : BitVec 16} :
    Acc t n H L (ialloc dev type) (fun k => k :: H) fun _ => L :=
  (acc_quiet quiet_readsb).bind fun _ => acc_iallocLoop _ _

/-! ### Contents and directories -/

variable {p off : Nat}

/-- A console unlocks the inode while it waits, and locks it again. -/
lemma acc_relock (hmem : k ∈ L) (hk : k < NINODE) :
    Acc t n H (L.erase k) (ilock k) (fun _ => H) fun _ => L :=
  fun s h => wp_mono (acc_ilock hk s h)
    (fun _ _ h1 => h1.perm (List.Perm.refl _) (perm_cons_erase hmem).symm) fun _ _ he => he

lemma acc_readi {m : Nat} (hk : k < NINODE) : Steady t n H L (readi p k off m) := by
  refine acc_read.bind fun ip => ?_
  split_ifs
  · intro s h
    refine wp_call (acc_iunlock hk h) fun _ s1 h1 => ?_
    exact (acc_quiet (quiet_consolereadLoop _)).bind
      (fun _ => (acc_relock h1.1 hk).bind fun _ => acc_ret) s1 h1.2
  · exact acc_ret
  · cases readiLen ip.size off m with
    | none => exact acc_ret
    | some m => exact (acc_quiet (quiet_readiLoop _ _ _)).bind fun _ => acc_ret

lemma acc_writei {src : List Byte} (hk : k < NINODE) : Steady t n H L (writei k off src) := by
  unfold writei
  generalize MAXFILE * BSIZE = max
  refine acc_read.bind fun ip => ?_
  dsimp only
  split_ifs
  · intro s h
    refine wp_call (acc_iunlock hk h) fun _ s1 h1 => ?_
    exact (acc_relock h1.1 hk).bind (fun _ => acc_ret) s1 h1.2
  · exact acc_ret
  · exact acc_ret
  · exact acc_ret
  · refine (acc_quiet (quiet_writeiLoop _ _ _)).bind fun _ => acc_read.bind fun _ => ?_
    exact Acc.bind (acc_quiet (acts_when (acts_bind (quiet_write fun _ =>
      Quiet.setInode (fun _ => rfl) fun _ => rfl) fun _ => quiet_iupdate))) fun _ => acc_ret

lemma acc_readDirent {e : Panic} (hk : k < NINODE) : Steady t n H L (readDirent k off e) := by
  refine (acc_readi hk).bind fun r => ?_
  dsimp only
  split_ifs
  · exact acc_ret
  · exact acc_panic

/-- What a search has found is held. -/
abbrev found {β : Type} (r : Option (Nat × β)) (H : List Nat) : List Nat :=
  (r.map Prod.fst).toList ++ H

lemma acc_dirlookupLoop {name : List Byte} (hk : k < NINODE) (fuel : Nat) : ∀ off,
    Acc t n H L (dirlookupLoop k name off fuel) (fun r => found r H) fun _ => L := by
  induction fuel with
  | zero => exact fun _ _ h => h
  | succ fuel ih =>
    intro off
    refine acc_read.bind fun dp => ?_
    split_ifs
    · refine (acc_readDirent hk).bind fun de => ?_
      split_ifs
      · exact (acc_iget _ _).bind fun _ _ h => h
      · exact ih _
    · exact fun _ h => h

lemma acc_dirlookup {name : List Byte} (hk : k < NINODE) :
    Acc t n H L (dirlookup k name) (fun r => found r H) fun _ => L := by
  refine acc_read.bind fun dp => ?_
  split_ifs
  · exact acc_panic
  · exact acc_dirlookupLoop hk _ _

lemma acc_dirlinkLoop (hk : k < NINODE) (fuel : Nat) : ∀ off,
    Steady t n H L (dirlinkLoop k off fuel) := by
  induction fuel with
  | zero => exact fun _ => acc_ret
  | succ fuel ih =>
    intro off
    refine acc_read.bind fun dp => ?_
    split_ifs
    · refine (acc_readDirent hk).bind fun de => ?_
      split_ifs
      · exact acc_ret
      · exact ih _
    · exact acc_ret

lemma acc_dirlink {name : List Byte} {inum : Nat} (hk : k < NINODE) :
    Steady t n H L (dirlink k name inum) := by
  intro s h
  refine (acc_dirlookup hk).bind (fun r => ?_) s h
  cases r with
  | some r => exact (acc_iput (h.held _)).bind fun _ => acc_ret
  | none =>
    refine acc_read.bind fun _ => (acc_dirlinkLoop hk _ _).bind fun _ => ?_
    refine (acc_writei hk).bind fun _ => ?_
    split_ifs
    · exact acc_ret
    · exact acc_panic

/-! ### Paths -/

/-- Every element makes the rest of the path shorter. -/
lemma length_skipelem {path path' name : List Byte} (h : skipelem path = some (path', name)) :
    path'.length < path.length := by
  have hle : ∀ (q : Byte → Bool) (l : List Byte), (l.dropWhile q).length ≤ l.length :=
    fun q l => (dropWhile_sublist q).length_le
  unfold skipelem at h
  cases hp : path.dropWhile (· = slash) with
  | nil =>
    rw [hp] at h
    cases h
  | cons c cs =>
    rw [hp] at h
    obtain ⟨rfl, -⟩ := Prod.mk.inj (Option.some.inj h)
    -- the first character of the element is no slash
    have hc : c ≠ slash := by
      have := head?_dropWhile_not (p := (· = slash)) path
      rw [hp] at this
      simpa using this
    rw [dropWhile_cons_of_pos (by simpa using hc)]
    have hlen := hle (· = slash) path
    rw [hp, length_cons] at hlen
    have h1 := hle (· = slash) (cs.dropWhile (· ≠ slash))
    have h2 := hle (· ≠ slash) cs
    omega

/-- The current directory of process `p` is an entry of the cache. -/
abbrev CwdOk (t : State) (p : Nat) : Prop := ∀ k, (t.proc p).cwd = some k → k < NINODE

/-- `namex` keeps one reference, to the inode that it returns. -/
lemma acc_namexLoop {parent : Bool} (fuel : Nat) : ∀ k (path name : List Byte),
    path.length < fuel →
    Acc t n (k :: H) [] (namexLoop parent k path name fuel) (fun r => found r H) fun _ => [] := by
  induction fuel with
  | zero => exact fun _ _ _ hf => absurd hf (Nat.not_lt_zero _)
  | succ fuel ih =>
    intro k path name hf
    unfold namexLoop
    cases hskip : skipelem path with
    | none =>
      dsimp only
      split_ifs
      · exact (acc_iput fun hmem => absurd hmem not_mem_nil).bind fun _ _ h => h
      · exact fun _ h => h
    | some r =>
      obtain ⟨path', name'⟩ := r
      have hlen := length_skipelem hskip
      refine Acc.of_lt fun hk => (acc_ilock hk).bind fun _ => acc_read.bind fun ip => ?_
      split_ifs
      · exact acc_iunlockput.bind fun _ _ h => h
      · exact acc_unlock.bind fun _ _ h => h
      · refine (acc_dirlookup hk).bind fun r => ?_
        cases r with
        | none => exact acc_iunlockput.bind fun _ _ h => h
        | some r =>
          exact (acc_iunlockput.perm (List.Perm.swap _ _ _) (List.Perm.refl _)).bind fun _ =>
            ih _ _ _ (by omega)

lemma acc_namex {parent : Bool} {path : List Byte} (hcwd : CwdOk t p) :
    Acc t n H [] (namex p path parent) (fun r => found r H) fun _ => [] := by
  unfold namex
  split_ifs
  · exact (acc_iget _ _).bind fun k => acc_namexLoop _ _ _ _ (Nat.lt_succ_self _)
  · intro s h
    refine wp_read.mpr ?_
    rw [h.tables.proc]
    cases hc : (t.proc p).cwd with
    | none => trivial
    | some cwd =>
      exact (acc_idup (hcwd cwd hc)).bind
        (fun k => acc_namexLoop _ _ _ _ (Nat.lt_succ_self _)) s h

lemma acc_namei {path : List Byte} (hcwd : CwdOk t p) :
    Acc t n H [] (namei p path) (fun r => r.toList ++ H) fun _ => [] :=
  (acc_namex hcwd).bind fun _ _ h => h

/-! ### Calls that work on the file system only -/

section Calls

variable {path : List Byte} {type major minor : BitVec 16} {ip dp : Nat}

lemma acc_linkBad : Acc t n (ip :: H) [] (linkBad ip) (fun _ => H) fun _ => [] := by
  refine Acc.of_lt fun hip => (acc_ilock hip).bind fun _ => ?_
  refine Acc.bind (acc_setInode (fun _ => rfl) fun _ => rfl) fun _ => ?_
  refine (acc_quiet quiet_iupdate).bind fun _ => acc_iunlockput.bind fun _ => ?_
  exact (acc_quiet quiet_commitTrans).bind fun _ => acc_ret

lemma acc_sysLink {old new : Option (List Byte)} (hcwd : CwdOk t p) :
    Steady t n H [] (sysLink p old new) := by
  cases old with
  | none => exact acc_ret
  | some old =>
  cases new with
  | none => exact acc_ret
  | some new =>
  refine (acc_namei hcwd).bind fun ip => ?_
  cases ip with
  | none => exact acc_ret
  | some ip =>
  refine Acc.of_lt fun hip => (acc_quiet quiet_beginTrans).bind fun _ => ?_
  refine (acc_ilock hip).bind fun _ => acc_read.bind fun i => ?_
  split_ifs
  · exact acc_iunlockput.bind fun _ => (acc_quiet quiet_commitTrans).bind fun _ => acc_ret
  refine Acc.bind (acc_setInode (fun _ => rfl) fun _ => rfl) fun _ => ?_
  refine (acc_quiet quiet_iupdate).bind fun _ => acc_unlock.bind fun _ => ?_
  refine (acc_namex hcwd).bind fun r => ?_
  cases r with
  | none => exact acc_linkBad
  | some r =>
  obtain ⟨dp, name⟩ := r
  refine Acc.of_lt fun hdp => (acc_ilock hdp).bind fun _ => ?_
  refine acc_read.bind fun d => acc_read.bind fun i => ?_
  have hlink : Steady t n (dp :: ip :: H) [dp]
      (if d.dev ≠ i.dev then pure (-1) else dirlink dp name i.inum : K Int) := by
    split_ifs
    · exact acc_ret
    · exact acc_dirlink hdp
  refine hlink.bind fun r => ?_
  split_ifs
  · exact acc_iunlockput.bind fun _ => acc_linkBad
  · refine acc_iunlockput.bind fun _ =>
      (acc_iput fun hmem => absurd hmem not_mem_nil).bind fun _ => ?_
    exact (acc_quiet quiet_commitTrans).bind fun _ => acc_ret

lemma acc_isdiremptyLoop (hk : k < NINODE) (fuel : Nat) : ∀ off,
    Steady t n H L (isdiremptyLoop k off fuel) := by
  induction fuel with
  | zero => exact fun _ => acc_ret
  | succ fuel ih =>
    intro off
    refine acc_read.bind fun dp => ?_
    split_ifs
    · refine (acc_readDirent hk).bind fun de => ?_
      split_ifs
      · exact acc_ret
      · exact ih _
    · exact acc_ret

lemma acc_unlinkBad : Acc t n (dp :: H) [dp] (unlinkBad dp) (fun _ => H) fun _ => [] :=
  acc_iunlockput.bind fun _ => (acc_quiet quiet_commitTrans).bind fun _ => acc_ret

lemma acc_sysUnlink {path : Option (List Byte)} (hcwd : CwdOk t p) :
    Steady t n H [] (sysUnlink p path) := by
  cases path with
  | none => exact acc_ret
  | some path =>
  refine (acc_namex hcwd).bind fun r => ?_
  cases r with
  | none => exact acc_ret
  | some r =>
  obtain ⟨dp, name⟩ := r
  refine Acc.of_lt fun hdp => (acc_quiet quiet_beginTrans).bind fun _ => ?_
  refine (acc_ilock hdp).bind fun _ => ?_
  split_ifs
  · exact acc_unlinkBad
  refine (acc_dirlookup hdp).bind fun r => ?_
  cases r with
  | none => exact acc_unlinkBad
  | some r =>
  obtain ⟨ip, off⟩ := r
  refine Acc.of_lt fun hip => (acc_ilock hip).bind fun _ => acc_read.bind fun i => ?_
  by_cases hlinks : i.nlink.toInt < 1
  · rw [if_pos hlinks]
    exact acc_panic
  rw [if_neg hlinks]
  have hempty : Steady t n (ip :: dp :: H) [ip, dp]
      (if i.type = T_DIR then isdirempty ip else pure true : K Bool) := by
    split_ifs
    · exact acc_read.bind fun _ => acc_isdiremptyLoop hip _ _
    · exact acc_ret
  refine hempty.bind fun empty => ?_
  split_ifs
  · exact acc_iunlockput.bind fun _ => acc_unlinkBad
  refine (acc_writei hdp).bind fun r => ?_
  split_ifs
  · exact acc_panic
  refine Acc.bind (acc_quiet (acts_when (acts_bind (quiet_write fun _ =>
    Quiet.setInode (fun _ => rfl) fun _ => rfl) fun _ => quiet_iupdate))) fun _ => ?_
  refine (acc_iunlockput.perm (List.Perm.swap dp ip H) (List.Perm.swap dp ip [])).bind fun _ => ?_
  refine Acc.bind (acc_setInode (fun _ => rfl) fun _ => rfl) fun _ => ?_
  refine (acc_quiet quiet_iupdate).bind fun _ => acc_iunlockput.bind fun _ => ?_
  exact (acc_quiet quiet_commitTrans).bind fun _ => acc_ret

lemma acc_createDots (hip : ip < NINODE) : Steady t n H L (createDots ip dp) := by
  refine Acc.bind (acc_setInode (fun _ => rfl) fun _ => rfl) fun _ => ?_
  refine (acc_quiet quiet_iupdate).bind fun _ => acc_read.bind fun i => acc_read.bind fun d => ?_
  refine (acc_dirlink hip).bind fun r => ?_
  split_ifs
  · exact acc_panic
  refine (acc_dirlink hip).bind fun r => ?_
  unfold K.when
  split_ifs
  · exact acc_panic
  · exact acc_ret

/-- `create` returns its inode locked and with a reference to it. -/
lemma acc_create (hcwd : CwdOk t p) : Acc t n H [] (create p path type major minor)
    (fun r => r.toList ++ H) fun r => r.toList := by
  refine (acc_namex hcwd).bind fun r => ?_
  cases r with
  | none => exact fun _ h => h
  | some r =>
  obtain ⟨dp, name⟩ := r
  refine Acc.of_lt fun hdp => (acc_ilock hdp).bind fun _ => (acc_dirlookup hdp).bind fun r => ?_
  cases r with
  | some r =>
    obtain ⟨ip, off⟩ := r
    refine Acc.of_lt fun hip => ?_
    refine (acc_iunlockput.perm (List.Perm.swap dp ip H) (List.Perm.refl _)).bind fun _ => ?_
    refine (acc_ilock hip).bind fun _ => acc_read.bind fun i => ?_
    split_ifs
    · exact fun _ h => h
    · exact acc_iunlockput.bind fun _ _ h => h
  | none =>
    refine acc_read.bind fun d => acc_ialloc.bind fun ip => Acc.of_lt fun hip => ?_
    refine (acc_ilock hip).bind fun _ => ?_
    refine Acc.bind (acc_setInode (fun _ => rfl) fun _ => rfl) fun _ => ?_
    refine (acc_quiet quiet_iupdate).bind fun _ => ?_
    have hdots : Steady t n (ip :: dp :: H) [ip, dp]
        (K.when (type = T_DIR) (createDots ip dp)) := by
      unfold K.when
      split_ifs
      · exact acc_createDots hip
      · exact acc_ret
    refine hdots.bind fun _ => acc_read.bind fun i => (acc_dirlink hdp).bind fun r => ?_
    split_ifs
    · exact acc_panic
    · exact (acc_iunlockput.perm (List.Perm.swap dp ip H) (List.Perm.swap dp ip [])).bind
        fun _ _ h => h

lemma acc_mkNode {path : Option (List Byte)} (hcwd : CwdOk t p) :
    Steady t n H [] (mkNode p path type major minor) := by
  refine (acc_quiet quiet_beginTrans).bind fun _ => ?_
  cases path with
  | none =>
    refine fun s h => wp_bind.mpr (wp_pure.mpr ?_)
    exact (acc_quiet quiet_commitTrans).bind (fun _ => acc_ret) s h
  | some path =>
  refine (acc_create hcwd).bind fun r => ?_
  cases r with
  | none => exact (acc_quiet quiet_commitTrans).bind fun _ => acc_ret
  | some ip =>
    exact acc_iunlockput.bind fun _ => (acc_quiet quiet_commitTrans).bind fun _ => acc_ret

/-! ### The part of `exec` that reads the file -/

variable {vm : ExecVm} {addr offset sz : Nat}

lemma acc_loaduvmLoop (hk : k < NINODE) (fuel : Nat) : ∀ i,
    Steady t n H L (loaduvmLoop p k vm addr offset sz i fuel) := by
  induction fuel with
  | zero => exact fun _ => acc_ret
  | succ fuel ih =>
    intro i
    unfold loaduvmLoop
    split_ifs
    · refine (acc_readi hk).bind fun r => ?_
      dsimp only
      split_ifs
      · exact acc_ret
      · exact ih _
    · exact acc_panic
    · exact acc_ret

lemma acc_loaduvm (hk : k < NINODE) : Steady t n H L (loaduvm p k vm addr offset sz) := by
  unfold loaduvm
  split_ifs
  · exact acc_panic
  · exact acc_loaduvmLoop hk _ _

lemma acc_execLoop (hk : k < NINODE) (m : Nat) : ∀ i off,
    Steady t n H L (execLoop p k vm i off m) := by
  induction m with
  | zero => exact fun _ _ => acc_ret
  | succ m ih =>
    intro i off
    refine (acc_readi hk).bind fun r => ?_
    dsimp only
    split_ifs
    · exact acc_ret
    · exact ih _ _
    · exact acc_ret
    · exact acc_ret
    · refine (acc_loaduvm hk).bind fun ok => ?_
      cases ok with
      | false => exact acc_ret
      | true => exact ih _ _

lemma acc_execLoad (hk : k < NINODE) : Steady t n H L (execLoad p k vm) := by
  refine (acc_readi hk).bind fun r => ?_
  dsimp only
  split_ifs
  all_goals first | exact acc_ret | exact acc_execLoop hk _ _ _

end Calls

end Accounts

end Xv6
