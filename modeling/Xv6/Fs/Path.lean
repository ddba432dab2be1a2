import Mathlib.Data.List.DropRight
import Xv6.Fs.Directory
import Xv6.Fs.References

/-!
# Paths

What `skipelem` makes of a path, and `namei` and `nameiparent` as a fold of `dirlookup` over the
elements of the path. The two modes of the loop of `namex` stop one element apart, and agree.
-/

namespace Xv6

open Lib Prog List

/-! ### The elements of a path -/

/-- The elements of a path: its longest runs of characters other than `/`, each cut to `DIRSIZ`. -/
def elements (path : List Byte) : List (List Byte) :=
  ((path.splitOn slash).filter fun run => !run.isEmpty).map fun run => run.take DIRSIZ

/-- `skipelem`, called until it returns 0, yields the elements `names`. -/
inductive Skips : List Byte → List (List Byte) → Prop
  | done {path : List Byte} (h : skipelem path = none) : Skips path []
  | elem {path path' name : List Byte} {names : List (List Byte)}
      (h : skipelem path = some (path', name)) (ht : Skips path' names) : Skips path (name :: names)

section Elements

variable {path path' name run : List Byte}

@[simp] lemma elements_nil : elements [] = [] := by
  simp [elements, splitOn_nil]

@[simp] lemma elements_slash (path : List Byte) : elements (slash :: path) = elements path := by
  simp [elements, List.splitOn, splitOnP_cons_eq_if_modifyHead]

@[simp] lemma elements_dropSlashes (path : List Byte) :
    elements (path.dropWhile (· = slash)) = elements path := by
  induction path with
  | nil => rfl
  | cons c path ih =>
    by_cases hc : c = slash
    · subst hc
      simpa using ih
    · simp [hc]

lemma elements_run (hne : run ≠ []) (hrun : ∀ c ∈ run, c ≠ slash) :
    elements run = [run.take DIRSIZ] := by
  rw [elements, List.splitOn, splitOnP_eq_singleton (by simpa using hrun)]
  simp [hne]

lemma elements_run_slash (hne : run ≠ []) (hrun : ∀ c ∈ run, c ≠ slash) (path : List Byte) :
    elements (run ++ slash :: path) = run.take DIRSIZ :: elements path := by
  have happ : elements (run ++ slash :: path) = elements run ++ elements path := by
    rw [elements, List.splitOn, splitOnP_append_cons run path (by simp), filter_append,
      map_append]
    rfl
  rw [happ, elements_run hne hrun, singleton_append]

/-- The characters up to the next slash, if there are any, are an element. -/
lemma elements_takeWhile (hne : path.takeWhile (· ≠ slash) ≠ []) :
    elements path = (path.takeWhile (· ≠ slash)).take DIRSIZ :: elements
      (path.dropWhile (· ≠ slash)) := by
  have hrun : ∀ c ∈ path.takeWhile (· ≠ slash), c ≠ slash := by
    intro c hc
    have hall := all_takeWhile (p := (· ≠ slash)) (l := path)
    simpa using all_eq_true.mp hall c hc
  have hsplit := takeWhile_append_dropWhile (p := (· ≠ slash)) (l := path)
  cases hd : path.dropWhile (· ≠ slash) with
  | nil =>
    rw [hd, append_nil] at hsplit
    rw [elements_nil, ← elements_run hne hrun, hsplit]
  | cons c rest =>
    have hc : c = slash := by
      have hhead := head?_dropWhile_not (· ≠ slash) path
      rw [hd] at hhead
      simpa using hhead
    subst hc
    rw [elements_slash, ← elements_run_slash hne hrun, ← hd, hsplit]

lemma elements_skipelem_none (h : skipelem path = none) : elements path = [] := by
  rw [← elements_dropSlashes]
  unfold skipelem at h
  cases hp : path.dropWhile (· = slash) with
  | nil => exact elements_nil
  | cons c rest => simp [hp] at h

lemma elements_skipelem (h : skipelem path = some (path', name)) :
    elements path = name :: elements path' := by
  rw [← elements_dropSlashes]
  unfold skipelem at h
  cases hp : path.dropWhile (· = slash) with
  | nil => simp [hp] at h
  | cons c rest =>
    have hc : c ≠ slash := by
      have hhead := head?_dropWhile_not (· = slash) path
      rw [hp] at hhead
      simpa using hhead
    rw [hp] at h
    obtain ⟨rfl, rfl⟩ := Prod.mk.inj (Option.some.inj h)
    rw [elements_dropSlashes, elements_takeWhile (by simp [hc])]

/-- Called again and again, `skipelem` comes to an end, and yields the elements of the path. -/
lemma skips_iff {names : List (List Byte)} : Skips path names ↔ names = elements path := by
  constructor
  · intro h
    induction h with
    | done h => exact (elements_skipelem_none h).symm
    | elem h ht ih => rw [elements_skipelem h, ih]
  · rintro rfl
    induction hn : path.length using Nat.strong_induction_on generalizing path with
    | _ n ih =>
      cases hs : skipelem path with
      | none =>
        rw [elements_skipelem_none hs]
        exact .done hs
      | some r =>
        rw [elements_skipelem hs]
        exact .elem hs (ih _ (hn ▸ length_skipelem hs) rfl)

end Elements

/-! ### One step of the walk -/

/-- Look up `name` in the inode `k`, which is given back: the inode of the entry, or `none` when `k`
is no directory or has no such entry. -/
def lookup (k : Nat) (name : List Byte) : OptionT K Nat := OptionT.mk do
  ilock k
  let ip ← read fun s => s.inode k
  if ip.type ≠ T_DIR then
    iunlockput k
    pure none
  else
    match ← dirlookup k name with
    | none =>
      iunlockput k
      pure none
    | some (next, _) =>
      iunlockput k
      pure (some next)

/-- The inode that a path starts from: the root, or the current directory of process `p`. -/
def start (p : Nat) (path : List Byte) : K Nat := do
  if path.head? = some slash then iget ROOTDEV ROOTINO
  else
    match ← read fun s => (s.proc p).cwd with
    | none => .panic .nullInode
    | some cwd => idup cwd

/-- The last step of `nameiparent`: `k` must be a directory, and is not searched. -/
def checkDir (k : Nat) (name : List Byte) : OptionT K (Nat × List Byte) := OptionT.mk do
  ilock k
  let ip ← read fun s => s.inode k
  if ip.type ≠ T_DIR then
    iunlockput k
    pure none
  else
    iunlock k
    pure (some (k, name))

section Walk

variable {p k fuel : Nat} {path path' name : List Byte}

lemma namexLoop_namei (k : Nat) (path name : List Byte) (h : path.length < fuel) :
    (do let r ← namexLoop false k path name fuel; pure (r.map Prod.fst)) =
      ((elements path).foldlM lookup k).run := by
  induction fuel generalizing k path name with
  | zero => omega
  | succ fuel ih =>
    unfold namexLoop
    cases hs : skipelem path with
    | none =>
      rw [elements_skipelem_none hs]
      rfl
    | some r =>
      obtain ⟨path', name'⟩ := r
      have hlen := length_skipelem hs
      rw [elements_skipelem hs, foldlM_cons, OptionT.run_bind, lookup]
      simp only [OptionT.run_mk, Option.elimM, bind_assoc]
      congr 1; funext _
      congr 1; funext ip
      split_ifs
      · simp
      · simp_all
      · simp only [bind_assoc]
        congr 1; funext r
        cases r with
        | none => simp
        | some r => simp only [bind_assoc, ih r.1 path' name' (by omega), pure_bind,
            Option.elim_some]

lemma dropSlashes_of_skipelem (h : skipelem path = some (path', name)) :
    path'.dropWhile (· = slash) = path' := by
  unfold skipelem at h
  cases hp : path.dropWhile (· = slash) with
  | nil => simp [hp] at h
  | cons c rest =>
    rw [hp] at h
    obtain ⟨rfl, -⟩ := Prod.mk.inj (Option.some.inj h)
    exact dropWhile_idempotent ..

/-- `skipelem` skips the slashes behind the element, so nothing is left behind the last one. -/
lemma isEmpty_iff_of_skipelem (h : skipelem path = some (path', name)) :
    path'.isEmpty = true ↔ elements path' = [] := by
  rw [List.isEmpty_iff]
  constructor
  · rintro rfl
    exact elements_nil
  · intro he
    have hdrop := dropSlashes_of_skipelem h
    cases hs : skipelem path' with
    | some r =>
      rw [elements_skipelem hs] at he
      cases he
    | none =>
      rw [skipelem, hdrop] at hs
      cases path' with
      | nil => rfl
      | cons c rest => cases hs

lemma namexLoop_nameiparent (k : Nat) (path name : List Byte) {names : List (List Byte)}
    {last : List Byte} (h : path.length < fuel) (he : elements path = names ++ [last]) :
    namexLoop true k path name fuel =
      (names.foldlM lookup k >>= fun dp => checkDir dp last).run := by
  induction fuel generalizing k path name names with
  | zero => omega
  | succ fuel ih =>
    unfold namexLoop
    cases hs : skipelem path with
    | none =>
      rw [elements_skipelem_none hs] at he
      simp at he
    | some r =>
      obtain ⟨path', name'⟩ := r
      have hlen := length_skipelem hs
      rw [elements_skipelem hs] at he
      have hend := isEmpty_iff_of_skipelem hs
      cases names with
      | nil =>
        obtain ⟨rfl, hnil⟩ := List.cons.inj he
        simp [hend.mpr hnil, checkDir]
      | cons name1 names =>
        obtain ⟨rfl, he'⟩ := List.cons.inj he
        have hne : path'.isEmpty = false := by
          rw [← Bool.not_eq_true, hend, he']
          simp
        rw [foldlM_cons, bind_assoc, OptionT.run_bind, lookup]
        simp only [OptionT.run_mk, Option.elimM, bind_assoc]
        congr 1; funext _
        congr 1; funext ip
        split_ifs
        · simp
        · simp_all
        · simp only [bind_assoc]
          congr 1; funext r
          cases r with
          | none => simp
          | some r =>
            simp only [bind_assoc, ih r.1 path' name' (by omega) he', pure_bind, Option.elim_some]

lemma namei_eq (p : Nat) (path : List Byte) : namei p path =
    (do let k ← start p path; ((elements path).foldlM lookup k).run) := by
  unfold namei namex start
  split_ifs
  · simp only [bind_assoc, namexLoop_namei _ path [] (Nat.lt_succ_self _)]
  · simp only [bind_assoc]
    congr 1; funext cwd
    cases cwd with
    | none => rfl
    | some cwd => simp only [bind_assoc, namexLoop_namei _ path [] (Nat.lt_succ_self _)]

lemma nameiparent_eq (p : Nat) {names : List (List Byte)} {last : List Byte}
    (he : elements path = names ++ [last]) : nameiparent p path =
    (do let k ← start p path; (names.foldlM lookup k >>= fun dp => checkDir dp last).run) := by
  unfold nameiparent namex start
  split_ifs
  · simp only [namexLoop_nameiparent _ path [] (Nat.lt_succ_self _) he]
  · simp only [bind_assoc]
    congr 1; funext cwd
    cases cwd with
    | none => rfl
    | some cwd => simp only [namexLoop_nameiparent _ path [] (Nat.lt_succ_self _) he]

end Walk

/-! ### The two modes agree -/

section Agree

variable {s s' : State} {k : Nat} {name : List Byte}

/-- What `ilock` leaves locks again once it is unlocked, and nothing is read from the disk. -/
lemma wp_ilock_locked : (ilock k).wp (fun _ s' => 1 ≤ (s'.inode k).ref ∧ (s'.inode k).busy = true ∧
    (s'.inode k).valid = true) (fun _ _ => True) s := by
  refine wp_read.mpr ?_
  split_ifs with href
  · trivial
  refine wp_bind.mpr (wp_act.mpr ?_)
  split_ifs
  · rw [wp_ret]
    refine wp_read.mpr ?_
    cases hv : (s.inode k).valid with
    | true =>
      rw [K.when_neg (by simp [hv])]
      simpa [hv] using href
    | false =>
      rw [K.when_pos (by simp [hv])]
      refine wp_bind.mpr (wp_act.mpr ?_)
      split_ifs
      · trivial
      · trivial
      refine wp_write.mpr ?_
      unfold K.when
      split_ifs
      · trivial
      · simpa [Inode.load] using href

lemma run_lookup_congr {s1 : State} (h : (ilock k).run s = .ok () s1)
    (h' : (ilock k).run s' = .ok () s1) :
    (lookup k name).run.run s = (lookup k name).run.run s' := by
  rw [lookup, OptionT.run_mk, run_bind, run_bind, h, h']

/-- Checking that `k` is a directory first changes nothing for the lookup in it. -/
lemma run_checkDir_lookup (k : Nat) (name : List Byte) (s : State) :
    (checkDir k name >>= fun r => lookup r.1 r.2).run.run s = (lookup k name).run.run s := by
  rw [OptionT.run_bind, checkDir]
  simp only [OptionT.run_mk, Option.elimM, bind_assoc]
  cases hr : (ilock k).run s with
  | stop e s1 => rw [lookup, OptionT.run_mk, run_bind, run_bind, hr]; rfl
  | ok u s1 =>
    obtain ⟨href, hbusy, hvalid⟩ := wp_ok wp_ilock_locked hr
    refine run_bind_ok hr (run_bind_ok (run_read _) ?_)
    by_cases ht : (s1.inode k).type = T_DIR
    · rw [if_neg (not_not.mpr ht), bind_assoc]
      refine run_bind_ok (run_iunlock href hbusy) ?_
      refine run_lookup_congr ?_ hr
      rw [run_ilock_valid (by simpa using href) (by simp) (by simpa using hvalid)]
      have hself : ({ s1.inode k with busy := true } : Inode) = s1.inode k := by rw [← hbusy]
      simp [State.setInode, hself, upd_eq_self]
    · rw [if_pos ht, bind_assoc]
      refine (run_bind_ok hr (run_bind_ok (run_read _) ?_)).symm
      rw [if_pos ht]
      simp

lemma run_bind_congr {α β : Type} {x : OptionT K α} {f g : α → OptionT K β}
    (h : ∀ a s, (f a).run.run s = (g a).run.run s) (s : State) :
    (x >>= f).run.run s = (x >>= g).run.run s := by
  rw [OptionT.run_bind, OptionT.run_bind, Option.elimM, Option.elimM, run_bind, run_bind]
  congr 1
  funext a s
  cases a with
  | none => rfl
  | some a => exact h a s

variable {p : Nat} {path last : List Byte} {names : List (List Byte)}

/-- `namei` is the lookup of the last element in the directory that `nameiparent` finds. -/
lemma run_nameiparent_lookup (he : elements path = names ++ [last]) (s : State) :
    (OptionT.mk (nameiparent p path) >>= fun r => lookup r.1 r.2).run.run s =
    (namei p path).run s := by
  rw [namei_eq, nameiparent_eq p he, he, OptionT.run_bind, Option.elimM, OptionT.run_mk, bind_assoc,
    run_bind, run_bind]
  congr 1
  funext k s
  have hstep := run_bind_congr (x := names.foldlM lookup k)
    (f := fun dp => checkDir dp last >>= fun r => lookup r.1 r.2) (g := fun dp => lookup dp last)
    (fun dp => run_checkDir_lookup dp last) s
  rw [← bind_assoc, OptionT.run_bind, Option.elimM] at hstep
  rw [foldlM_append]
  simpa only [foldlM_cons, foldlM_nil, bind_pure] using hstep

/-- `nameiparent` leaves the last element in `name`. -/
lemma wp_nameiparent_name (he : elements path = names ++ [last]) : (nameiparent p path).wp
    (fun r _ => ∀ dp name, r = some (dp, name) → name = last) (fun _ _ => True) s := by
  rw [nameiparent_eq p he]
  refine wp_skip fun k s1 => ?_
  rw [OptionT.run_bind, Option.elimM]
  refine wp_skip fun r s2 => ?_
  cases r with
  | none => simp
  | some dp =>
    refine wp_skip fun _ s3 => wp_read.mpr ?_
    split_ifs
    · refine wp_skip fun _ s4 => ?_
      simp
    · refine wp_skip fun _ s4 => ?_
      simp

end Agree

/-- `skipelem` takes the elements off a path one after the other, `namei` folds the lookup over them
from the root or the current directory on, and for a path that has an element `nameiparent` stops
where the lookup of the last one gives the result of `namei`. -/
theorem namei_folds_elements (p : Nat) (path : List Byte) :
    (∀ names, Skips path names ↔ names = elements path) ∧
    (namei p path = do
      let k ← start p path
      ((elements path).foldlM lookup k).run) ∧
    (elements path ≠ [] → ∀ s : State,
      (OptionT.mk (nameiparent p path) >>= fun r => lookup r.1 r.2).run.run s =
        (namei p path).run s ∧
      ∀ k s', (namei p path).run s = .ok (some k) s' →
        ∃ dp name s1, (nameiparent p path).run s = .ok (some (dp, name)) s1 ∧
          (elements path).getLast? = some name ∧
            (lookup dp name).run.run s1 = .ok (some k) s') := by
  refine ⟨fun _ => skips_iff, namei_eq p path, fun hne s => ?_⟩
  have he := (dropLast_append_getLast hne).symm
  have hrun := run_nameiparent_lookup (p := p) he s
  refine ⟨hrun, fun k s' hok => ?_⟩
  rw [hok, OptionT.run_bind, Option.elimM, OptionT.run_mk, run_bind] at hrun
  cases hp : (nameiparent p path).run s with
  | stop e s1 =>
    rw [hp] at hrun
    cases hrun
  | ok r s1 =>
    rw [hp] at hrun
    cases r with
    | none => cases hrun
    | some r =>
      have hname := wp_ok (wp_nameiparent_name he) hp r.1 r.2 rfl
      refine ⟨r.1, r.2, s1, rfl, ?_, hrun⟩
      rw [hname, getLast?_eq_some_getLast hne]

theorem namei_folds_elements_ab : elements [47, 97, 47, 47, 98, 47] = [[97], [98]] ∧
    ∀ s : State, (OptionT.mk (nameiparent 0 [47, 97, 47, 47, 98, 47]) >>=
      fun r => lookup r.1 r.2).run.run s = (namei 0 [47, 97, 47, 47, 98, 47]).run s :=
  ⟨by decide, fun s => ((namei_folds_elements 0 [47, 97, 47, 47, 98, 47]).2.2 (by decide) s).1⟩

end Xv6
