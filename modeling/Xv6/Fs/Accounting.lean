import Xv6.Fs.FileTable
import Xv6.Fs.Mkfs

/-!
# Reference counts over runs of system calls

Between system calls every reference belongs to a table: those to files to descriptors, and those to
inodes to open files and current directories. Each call of a live process keeps the books, by all of
its exits, so they are right in every state that a run of calls reaches.
-/

namespace Xv6

open Lib Prog List

section Calls

variable {α : Type} {P Q : Nat → Proc} {s s' : State} {O : Nat × Nat → Option Nat} {F : List Nat}
  {N c : Nat → Nat} {H L : List Nat} {f k p np fd m : Nat}

/-! ### Descriptors -/

/-- A descriptor of a process is set. -/
def Proc.setFd (fd : Nat) (v : Option Nat) (pr : Proc) : Proc :=
  { pr with ofile := fun i => if i = fd then v else pr.ofile i }

lemma Proc.setFd_undo {pr : Proc} {v : Option Nat} (h : pr.ofile fd = none) :
    (pr.setFd fd v).setFd fd none = pr := by
  have hofile : (fun i => if i = fd then none else if i = fd then v else pr.ofile i) =
      pr.ofile := by
    funext i
    split_ifs with hi
    · rw [hi, h]
    · rfl
  unfold Proc.setFd
  rw [hofile]

lemma mem_slotSet (hp : p < NPROC) (hfd : fd < NOFILE) : (p, fd) ∈ slotSet := by
  unfold slotSet
  simp only [Finset.mem_product, Finset.mem_range]
  exact ⟨hp, hfd⟩

lemma of_mem_slotSet {x : Nat × Nat} (h : x ∈ slotSet) : x.1 < NPROC ∧ x.2 < NOFILE := by
  unfold slotSet at h
  simp only [Finset.mem_product, Finset.mem_range] at h
  exact h

lemma slots_setFd (hp : p < NPROC) (hfd : fd < NOFILE) (v : Option Nat) (f : Nat) :
    slots (ofiles (upd P p ((P p).setFd fd v))) f + ((P p).ofile fd).toList.count f =
      slots (ofiles P) f + v.toList.count f := by
  have hnew : ofiles (upd P p ((P p).setFd fd v)) (p, fd) = v := by
    simp [ofiles, Proc.setFd]
  have hchange := occ_change_some (b := f) (v := ofiles P)
    (w := ofiles (upd P p ((P p).setFd fd v))) (mem_slotSet hp hfd) fun x _ hx => by
      obtain ⟨q, i⟩ := x
      unfold ofiles
      by_cases hq : q = p
      · subst hq
        have hi : i ≠ fd := fun hi => hx (by rw [hi])
        simp [Proc.setFd, hi]
      · rw [upd_ne hq]
  rw [hnew] at hchange
  unfold slots
  exact hchange

lemma slots_pos (hp : p < NPROC) (hfd : fd < NOFILE) (h : (P p).ofile fd = some f) :
    0 < slots (ofiles P) f := by
  unfold slots
  exact occ_pos (mem_slotSet hp hfd) h

/-- A descriptor of a process refers to an entry in use. -/
lemma Books.descriptor (h : Books P (ofiles P) F N c H L s) (hp : p < NPROC) (hfd : fd < NOFILE)
    (ho : (P p).ofile fd = some f) : f < NFILE ∧ 0 < (s.file f).ref := by
  have hpos := slots_pos hp hfd ho
  have hf := h.table.lt f (by omega)
  refine ⟨hf, ?_⟩
  rw [h.table.ref f hf]
  omega

/-- The inode of an open file is in the cache. -/
lemma Books.ip_lt (h : Books P O F N c H L s) (hf : f < NFILE) (href : 0 < (s.file f).ref)
    (ht : (s.file f).type = .inode) : (s.file f).ip < NINODE := by
  have hpos : 0 < inodeFiles s.file (s.file f).ip :=
    occ_pos (Finset.mem_range.mpr hf) (File.inode_eq_some href ht)
  exact h.inodes.lt _ (by omega)

lemma fdalloc_run (p f : Nat) : (fdalloc p f).run s = .ok none s ∨
    ∃ fd < NOFILE, (s.proc p).ofile fd = none ∧
      (fdalloc p f).run s = .ok (some fd) (s.setProc p (Proc.setFd fd (some f))) := by
  cases hr : findFrom (fun fd => ((s.proc p).ofile fd).isNone) 0 NOFILE with
  | none =>
    left
    unfold fdalloc
    rw [run_act]
    simp only [hr]
    rfl
  | some fd =>
    right
    refine ⟨fd, by simpa using (findFrom_some hr).2.1, by simpa using (findFrom_some hr).2.2.1, ?_⟩
    unfold fdalloc
    rw [run_act]
    simp only [hr]
    rfl

lemma count_cons_eq (f f' : Nat) (F : List Nat) :
    (f :: F).count f' = (some f).toList.count f' + F.count f' := count_cons_single ..

/-- A new descriptor holds a reference of the call. -/
lemma Books.newFd (h : Books (upd P p ((P p).setFd fd (some f))) (ofiles P) (f :: F) N c H L s)
    (hp : p < NPROC) (hfd : fd < NOFILE) (hfree : (P p).ofile fd = none) :
    Books (upd P p ((P p).setFd fd (some f))) (ofiles (upd P p ((P p).setFd fd (some f)))) F N c H L
      s := by
  refine h.regroup (fun f' => ?_) fun _ => rfl
  have hslots := slots_setFd (P := P) hp hfd (some f) f'
  rw [hfree] at hslots
  rw [count_cons_eq]
  simp only [Option.toList_none, count_nil] at hslots
  omega

/-- The reference of a descriptor passes to the call. -/
lemma Books.oldFd (h : Books Q (ofiles P) F N c H L s) (hp : p < NPROC) (hfd : fd < NOFILE)
    (ho : (P p).ofile fd = some f) :
    Books Q (ofiles (upd P p ((P p).setFd fd none))) (f :: F) N c H L s := by
  refine h.regroup (fun f' => ?_) fun _ => rfl
  have hslots := slots_setFd (P := P) hp hfd none f'
  rw [ho] at hslots
  rw [count_cons_eq]
  simp only [Option.toList_none, count_nil] at hslots
  omega

/-! ### The state between calls -/

/-- No call is running, and the processes without a current directory have no files either. -/
structure Settled (N : Nat → Nat) (s : State) : Prop where
  books : Books s.proc (ofiles s.proc) [] N (cwds s.proc) [] [] s
  dead : ∀ p < NPROC, (s.proc p).cwd = none → ∀ fd < NOFILE, (s.proc p).ofile fd = none

/-- The process runs. -/
structure Live (s : State) (p : Nat) : Prop where
  lt : p < NPROC
  cwd : (s.proc p).cwd ≠ none

lemma Settled.of_books (h : Books P (ofiles P) [] N (cwds P) [] [] s)
    (hdead : ∀ p < NPROC, (P p).cwd = none → ∀ fd < NOFILE, (P p).ofile fd = none) :
    Settled N s := by
  obtain rfl := h.proc
  exact ⟨h, hdead⟩

/-- A call that changes no process. -/
lemma Settled.same (h : Settled N s)
    (hb : Books s.proc (ofiles s.proc) [] N (cwds s.proc) [] [] s') : Settled N s' :=
  Settled.of_books hb h.dead

/-- A call that works on the inode cache only. -/
lemma Settled.lift (h : Settled N s) {q : K α}
    (hq : Steady s (fun k => inodeFiles s.file k + cwds s.proc k) [] [] q) :
    q.wp (fun _ s' => Settled N s') AnyStop s := by
  have hb : q.wp (fun _ s' => Books s.proc (ofiles s.proc) [] N (cwds s.proc) [] [] s' ∧
      s'.file = s.file) AnyStop s := h.books.lift hq
  exact wp_mono hb (fun _ _ h' => h.same h'.1) fun _ _ he => he

lemma cwds_pos (hp : p < NPROC) (h : (P p).cwd = some k) : 0 < cwds P k :=
  occ_pos (Finset.mem_range.mpr hp) h

lemma Books.cwd_lt (h : Books P O F N (cwds P) H L s) (hp : p < NPROC) :
    CwdOk s p := by
  intro k hk
  rw [h.proc] at hk
  have hpos := cwds_pos hp hk
  exact h.inodes.lt k (by omega)

/-- A change of a process that concerns neither descriptors nor the current directory. -/
lemma Settled.setProc (h : Settled N s) {u : Proc → Proc}
    (ho : ∀ pr : Proc, (u pr).ofile = pr.ofile)
    (hc : ∀ pr : Proc, (u pr).cwd = pr.cwd) : Settled N (s.setProc p u) := by
  have hofile : ∀ q, (upd s.proc p (u (s.proc p)) q).ofile = (s.proc q).ofile := fun q => by
    unfold upd
    split_ifs with hq
    · rw [ho, hq]
    · rfl
  have hcwd : ∀ q, (upd s.proc p (u (s.proc p)) q).cwd = (s.proc q).cwd := fun q => by
    unfold upd
    split_ifs with hq
    · rw [hc, hq]
    · rfl
  have hfiles : ofiles (upd s.proc p (u (s.proc p))) = ofiles s.proc :=
    funext fun x => congrFun (hofile x.1) x.2
  have hcwds : cwds (upd s.proc p (u (s.proc p))) = cwds s.proc :=
    funext fun k => occ_congr fun q _ => hcwd q
  refine Settled.of_books (P := upd s.proc p (u (s.proc p))) ?_ fun q hq hnone fd hfd => ?_
  · rw [hfiles, hcwds]
    exact h.books.setProc u
  · rw [hofile]
    rw [hcwd] at hnone
    exact h.dead q hq hnone fd hfd

/-! ### Calls on descriptors -/

lemma Live.ne (hl : Live s p) (hnp : (s.proc np).cwd = none) : p ≠ np := by
  rintro rfl
  exact hl.cwd hnp

/-- Only descriptors of a live process have changed. -/
lemma Settled.of_setFd (h : Settled N s) (hl : Live s p) {ofile : Nat → Option Nat}
    (hb : Books (upd s.proc p { s.proc p with ofile := ofile })
      (ofiles (upd s.proc p { s.proc p with ofile := ofile })) [] N (cwds s.proc) [] [] s') :
    Settled N s' := by
  have hcwd : ∀ q, (upd s.proc p { s.proc p with ofile := ofile } q).cwd = (s.proc q).cwd :=
    fun q => by
    unfold upd
    split_ifs with hq
    · rw [hq]
    · rfl
  have hcwds : cwds (upd s.proc p { s.proc p with ofile := ofile }) = cwds s.proc :=
    funext fun k => occ_congr fun q _ => hcwd q
  refine Settled.of_books (hcwds ▸ hb) fun q hq hnone fd hfd => ?_
  rw [hcwd] at hnone
  have hne : q ≠ p := by
    rintro rfl
    exact hl.cwd hnone
  rw [upd_ne hne]
  exact h.dead q hq hnone fd hfd

/-- The descriptor that a call is given is refused, or it stands for an open file. -/
lemma Settled.wp_argfd (h : Settled N s) (hl : Live s p) {d : Int} {g : Option Nat → K α}
    {Q : α → State → Prop} (hnone : (g none).wp Q AnyStop s)
    (hsome : ∀ f, d.toNat < NOFILE → (s.proc p).ofile d.toNat = some f → f < NFILE →
      0 < (s.file f).ref → (g (some f)).wp Q AnyStop s) : (argfd p d >>= g).wp Q AnyStop s := by
  unfold argfd
  split_ifs with hbad
  · exact hnone
  refine wp_read.mpr ?_
  have hlt : d.toNat < NOFILE := by
    simp only [NOFILE] at hbad ⊢
    omega
  cases ho : (s.proc p).ofile d.toNat with
  | none => exact hnone
  | some f =>
    obtain ⟨hf, href⟩ := h.books.descriptor hl.lt hlt ho
    exact hsome f hlt ho hf href

lemma settled_sysDup (h : Settled N s) (hl : Live s p) (d : Int) :
    (sysDup p d).wp (fun _ s' => Settled N s') AnyStop s := by
  refine h.wp_argfd hl h fun f _ _ hf _ => ?_
  rcases fdalloc_run (s := s) p f with hr | ⟨fd, hfd, hfree, hr⟩
  · exact wp_bind.mpr (wp_of_run hr h)
  · refine wp_bind.mpr (wp_of_run hr ?_)
    refine wp_call (books_filedup (h.books.setProc _) hf) fun _ s1 h1 => ?_
    exact h.of_setFd hl (h1.newFd hl.lt hfd hfree)

lemma settled_sysClose (h : Settled N s) (hl : Live s p) (d : Int) :
    (sysClose p d).wp (fun _ s' => Settled N s') AnyStop s := by
  refine h.wp_argfd hl h fun f hlt ho _ _ => ?_
  refine wp_write.mpr ?_
  have hb := (h.books.setProc (p := p) (Proc.setFd d.toNat none)).oldFd hl.lt hlt ho
  exact wp_call (books_fileclose hb fun _ hk => absurd hk not_mem_nil) fun _ s1 h1 =>
    h.of_setFd hl h1

lemma settled_sysPipe (h : Settled N s) (hl : Live s p) (ptr : Nat) :
    (sysPipe p ptr).wp (fun _ s' => Settled N s') AnyStop s := by
  have hnil : ∀ k ∈ ([] : List Nat), k ∈ ([] : List Nat) := fun _ hk => hk
  refine wp_read.mpr ?_
  cases argptr (s.proc p).sz ptr 8 with
  | none => exact h
  | some _ =>
  refine wp_call (books_pipealloc h.books hnil) fun r s1 h1 => ?_
  cases r with
  | none => exact h.same h1
  | some r =>
  obtain ⟨rf, wf⟩ := r
  change Books s.proc (ofiles s.proc) [rf, wf] N (cwds s.proc) [] [] s1 at h1
  rcases fdalloc_run (s := s1) p rf with hr | ⟨fd0, hfd0, hfree0, hr⟩
  · refine wp_bind.mpr (wp_of_run hr ?_)
    refine wp_call (books_fileclose h1 hnil) fun _ s2 h2 => ?_
    exact wp_call (books_fileclose h2 hnil) fun _ _ h3 => h.same h3
  refine wp_bind.mpr (wp_of_run hr ?_)
  rw [h1.proc] at hfree0
  have h2 := h1.setProc (p := p) (Proc.setFd fd0 (some rf))
  rcases fdalloc_run (s := s1.setProc p (Proc.setFd fd0 (some rf))) p wf with
    hr | ⟨fd1, hfd1, hfree1, hr⟩
  · refine wp_bind.mpr (wp_of_run hr ?_)
    refine wp_write.mpr ?_
    -- the first descriptor is cleared, so the processes are as before
    have hback : upd (upd s.proc p ((s.proc p).setFd fd0 (some rf))) p
        ((upd s.proc p ((s.proc p).setFd fd0 (some rf)) p).setFd fd0 none) = s.proc := by
      rw [upd_same, upd_upd, Proc.setFd_undo hfree0, upd_eq_self]
    have h3 := h2.setProc (p := p) (Proc.setFd fd0 none)
    rw [hback] at h3
    refine wp_call (books_fileclose h3 hnil) fun _ s4 h4 => ?_
    exact wp_call (books_fileclose h4 hnil) fun _ _ h5 => h.same h5
  · refine wp_bind.mpr (wp_of_run hr ?_)
    rw [h2.proc] at hfree1
    have h3 := (h2.newFd hl.lt hfd0 hfree0).setProc (p := p) (Proc.setFd fd1 (some wf))
    have h4 := h3.newFd hl.lt hfd1 hfree1
    rw [upd_same, upd_upd] at h4
    exact h.of_setFd hl h4

/-! ### Open files -/

/-- A new file takes over the reference to its inode. -/
lemma settled_openFd (h : Settled N s) (hl : Live s p) {ip omode : Nat}
    (hb : Books s.proc (ofiles s.proc) [] N (cwds s.proc) [ip] [ip] s') :
    (openFd p ip omode).wp (fun _ s' => Settled N s') AnyStop s' := by
  refine wp_call (books_filealloc hb) fun r s1 h1 => ?_
  cases r with
  | none =>
    exact wp_call (h1.1.lift acc_iunlockput) fun _ _ h2 => h.same h2.1
  | some f =>
  obtain ⟨hf, -, ht, -⟩ := h1.2 f rfl
  have hbooks : Books s.proc (ofiles s.proc) [f] N (cwds s.proc) [ip] [ip] s1 := h1.1
  rcases fdalloc_run (s := s1) p f with hr | ⟨fd, hfd, hfree, hr⟩
  · refine wp_bind.mpr (wp_of_run hr ?_)
    refine wp_call (books_fileclose hbooks fun _ hk => hk) fun _ s2 h2 => ?_
    exact wp_call (h2.lift acc_iunlockput) fun _ _ h3 => h.same h3.1
  refine wp_bind.mpr (wp_of_run hr ?_)
  rw [hbooks.proc] at hfree
  have h2 := hbooks.setProc (p := p) (Proc.setFd fd (some f))
  refine wp_call (h2.lift acc_unlock) fun _ s3 h3 => ?_
  have htype : (s3.file f).type = .none := by
    rw [h3.2]
    exact ht
  have href := h3.1.table.ref f hf
  have hpos : 0 < (s3.file f).ref := by
    rw [href, count_cons_self]
    omega
  refine wp_write.mpr ?_
  refine h.of_setFd hl (Books.newFd (h3.1.setFile [f] [] hf href (fun _ _ => rfl) (fun h0 => ?_)
    (fun g w => ?_) fun k => ?_) hl.lt hfd hfree)
  · exact absurd h0 (by change (s3.file f).ref ≠ 0; omega)
  · exact ⟨fun he => absurd he.1 (by simp), fun he => absurd (htype.symm.trans he.1) (by decide)⟩
  · rw [File.inode_eq_none (s3.file f) (.inr (by rw [htype]; decide)),
      File.inode_eq_some (by exact hpos) rfl]
    simp

lemma settled_sysOpen (h : Settled N s) (hl : Live s p) {path : Option (List Byte)} {omode : Nat} :
    (sysOpen p path omode).wp (fun _ s' => Settled N s') AnyStop s := by
  cases path with
  | none => exact h
  | some path =>
  unfold sysOpen
  dsimp only
  split_ifs
  · refine wp_call (h.books.lift (acc_quiet quiet_beginTrans)) fun _ s1 h1 => ?_
    refine wp_call (h1.1.lift (acc_create (h1.1.cwd_lt hl.lt))) fun r s2 h2 => ?_
    refine wp_call (h2.1.lift (acc_quiet quiet_commitTrans)) fun _ s3 h3 => ?_
    cases r with
    | none => exact h.same h3.1
    | some ip => exact settled_openFd h hl h3.1
  · refine wp_call (h.books.lift (acc_namei (h.books.cwd_lt hl.lt)))
      fun r s1 h1 => ?_
    cases r with
    | none => exact h.same h1.1
    | some ip =>
    have hip : ip < NINODE := h1.1.inodes.mem_lt mem_cons_self
    refine wp_call (h1.1.lift (acc_ilock hip)) fun _ s2 h2 => ?_
    refine wp_read.mpr ?_
    split_ifs
    · exact wp_call (h2.1.lift acc_iunlockput) fun _ _ h3 => h.same h3.1
    · exact settled_openFd h hl h2.1

/-- The offset of a file is changed. -/
lemma Books.setOff (h : Books P O F N c H L s) (hf : f < NFILE) {off : File → Nat} :
    Books P O F N c H L (s.setFile f fun fl => { fl with off := off fl }) :=
  h.setFile F H hf (h.table.ref f hf) (fun _ _ => rfl) (h.table.closed f hf) (fun _ _ => Iff.rfl)
    fun _ => rfl

lemma books_moveOff (h : Books P O F N c H L s) (hf : f < NFILE) (r : Int) :
    (K.when (0 < r) do
      write fun s => s.setFile f fun fl => { fl with off := (fl.off + r.toNat) % 2 ^ 32 }).wp
      (fun _ s' => Books P O F N c H L s') AnyStop s := by
  unfold K.when
  split_ifs
  · exact h.setOff hf
  · exact h

lemma books_fileread (h : Books P O F N c [] [] s) (hf : f < NFILE) (href : 0 < (s.file f).ref)
    (d : Int) : (fileread p f d).wp (fun _ s' => Books P O F N c [] [] s') AnyStop s := by
  refine wp_read.mpr ?_
  split_ifs with hr hpipe hinode
  · exact h
  · exact h
  · have hip := h.ip_lt hf href hinode
    refine wp_call (h.lift (acc_ilock hip)) fun _ s1 h1 => ?_
    refine wp_read.mpr ?_
    refine wp_call (h1.1.lift (acc_readi hip)) fun r s2 h2 => ?_
    refine wp_call (books_moveOff h2.1 hf r.1) fun _ s3 h3 => ?_
    exact wp_call (h3.lift acc_unlock) fun _ _ h4 => h4.1
  · trivial

lemma books_filewriteLoop (hf : f < NFILE) (hk : k < NINODE) (fuel : Nat) :
    ∀ (src : List Byte) s, Books P O F N c [] [] s →
    ((fileOps f k).filewriteLoop src fuel).wp (fun _ s' => Books P O F N c [] [] s') AnyStop s := by
  induction fuel with
  | zero => exact fun _ _ h => h
  | succ fuel ih =>
    intro src s h
    unfold FileOps.filewriteLoop
    split_ifs
    · exact h
    refine wp_call (h.lift (acc_quiet quiet_beginTrans)) fun _ s1 h1 => ?_
    refine wp_call (h1.1.lift (acc_ilock hk)) fun _ s2 h2 => ?_
    refine wp_read.mpr ?_
    refine wp_call (h2.1.lift (acc_writei hk)) fun r s3 h3 => ?_
    refine wp_call (books_moveOff h3.1 hf r) fun _ s4 h4 => ?_
    refine wp_call (h4.lift acc_unlock) fun _ s5 h5 => ?_
    refine wp_call (h5.1.lift (acc_quiet quiet_commitTrans)) fun _ s6 h6 => ?_
    split_ifs
    · exact h6.1
    · trivial
    · exact ih _ _ h6.1

lemma books_filewrite (h : Books P O F N c [] [] s) (hf : f < NFILE) (href : 0 < (s.file f).ref)
    (d : Int) (src : List Byte) :
    (filewrite f d src).wp (fun _ s' => Books P O F N c [] [] s') AnyStop s := by
  refine wp_read.mpr ?_
  split_ifs with hw hpipe hinode
  · exact h
  · exact h
  · exact wp_call (books_filewriteLoop hf (h.ip_lt hf href hinode) _ _ _ h) fun _ _ h1 => h1
  · trivial

lemma books_filestat (h : Books P O F N c [] [] s) (hf : f < NFILE) (href : 0 < (s.file f).ref) :
    (filestat f).wp (fun _ s' => Books P O F N c [] [] s') AnyStop s := by
  refine wp_read.mpr ?_
  split_ifs with hinode
  · refine wp_call (h.lift (acc_ilock (h.ip_lt hf href hinode))) fun _ s1 h1 => ?_
    refine wp_read.mpr ?_
    exact wp_call (h1.1.lift acc_unlock) fun _ _ h2 => h2.1
  · exact h

lemma settled_sysRead (h : Settled N s) (hl : Live s p) (d : Int) (ptr : Nat) (n : Int) :
    (sysRead p d ptr n).wp (fun _ s' => Settled N s') AnyStop s := by
  refine h.wp_argfd hl h fun f _ _ hf href => ?_
  refine wp_read.mpr ?_
  cases argptr (s.proc p).sz ptr n with
  | none => exact h
  | some _ => exact wp_mono (books_fileread h.books hf href n) (fun _ _ h' =>
      h.same h') fun _ _ he => he

lemma settled_sysWrite (h : Settled N s) (hl : Live s p) (d : Int) (ptr : Nat) (n : Int)
    (src : Nat → Byte) : (sysWrite p d ptr n src).wp (fun _ s' => Settled N s') AnyStop s := by
  refine h.wp_argfd hl h fun f _ _ hf href => ?_
  refine wp_read.mpr ?_
  cases argptr (s.proc p).sz ptr n with
  | none => exact h
  | some _ =>
    exact wp_mono (books_filewrite h.books hf href n _) (fun _ _ h' => h.same h') fun _ _ he => he

lemma settled_sysFstat (h : Settled N s) (hl : Live s p) (d : Int) :
    (sysFstat p d).wp (fun _ s' => Settled N s') AnyStop s := by
  refine h.wp_argfd hl h fun f _ _ hf href => ?_
  refine wp_call (books_filestat h.books hf href) fun r s1 h1 => ?_
  cases r with
  | none => exact h.same h1
  | some _ => exact h.same h1

/-! ### Processes -/

lemma cwds_set {v : Option Nat} (hp : p < NPROC) (k : Nat) :
    cwds (upd P p { P p with cwd := v }) k + (P p).cwd.toList.count k =
      cwds P k + v.toList.count k := by
  have hchange := occ_change_some (b := k) (v := fun q => (P q).cwd)
    (w := fun q => (upd P p { P p with cwd := v } q).cwd) (Finset.mem_range.mpr hp)
    fun q _ hq => by rw [upd_ne hq]
  rw [upd_same] at hchange
  exact hchange

lemma ofiles_setCwd {v : Option Nat} : ofiles (upd P p { P p with cwd := v }) = ofiles P := by
  funext x
  unfold ofiles upd
  split_ifs with hx
  · rw [hx]
  · rfl

lemma settled_sysChdir (h : Settled N s) (hl : Live s p) {path : Option (List Byte)} :
    (sysChdir p path).wp (fun _ s' => Settled N s') AnyStop s := by
  cases path with
  | none => exact h
  | some path =>
  refine wp_call (h.books.lift (acc_namei (h.books.cwd_lt hl.lt))) fun r s1 h1 => ?_
  cases r with
  | none => exact h.same h1.1
  | some ip =>
  have hip : ip < NINODE := h1.1.inodes.mem_lt mem_cons_self
  refine wp_call (h1.1.lift (acc_ilock hip)) fun _ s2 h2 => ?_
  refine wp_read.mpr ?_
  split_ifs
  · exact wp_call (h2.1.lift acc_iunlockput) fun _ _ h3 => h.same h3.1
  refine wp_call (h2.1.lift acc_unlock) fun _ s3 h3 => ?_
  refine wp_read.mpr ?_
  rw [h3.1.proc]
  cases hc : (s.proc p).cwd with
  | none => trivial
  | some cwd =>
  -- the process has the new directory, and the call the reference to the old one
  have h4 : Books s.proc (ofiles s.proc) [] N (cwds (upd s.proc p { s.proc p with cwd := some ip }))
      [cwd] [] s3 := by
    refine h3.1.regroup (fun _ => rfl) fun k => ?_
    have hset := cwds_set (P := s.proc) (v := some ip) hl.lt k
    rw [hc] at hset
    exact hset
  refine wp_call (h4.lift (acc_iput fun hmem => absurd hmem not_mem_nil))
    fun _ s5 h5 => ?_
  refine Settled.of_books (P := upd s.proc p { s.proc p with cwd := some ip }) ?_
    fun q hq hnone fd hfd => ?_
  · rw [ofiles_setCwd]
    exact h5.1.setProc fun pr => { pr with cwd := some ip }
  · have hne : q ≠ p := by
      rintro rfl
      rw [upd_same] at hnone
      cases hnone
    rw [upd_ne hne] at hnone ⊢
    exact h.dead q hq hnone fd hfd

lemma settled_sysExec (h : Settled N s) (hl : Live s p) {path : Option (List Byte)} {vm : ExecVm} :
    (sysExec p path vm).wp (fun _ s' => Settled N s') AnyStop s := by
  cases path with
  | none => exact h
  | some path =>
  refine wp_call (h.books.lift (acc_namei (h.books.cwd_lt hl.lt))) fun r s1 h1 => ?_
  cases r with
  | none => exact h.same h1.1
  | some k =>
  have hk : k < NINODE := h1.1.inodes.mem_lt mem_cons_self
  refine wp_call (h1.1.lift (acc_ilock hk)) fun _ s2 h2 => ?_
  refine wp_call (h2.1.lift (acc_execLoad hk)) fun ok s3 h3 => ?_
  cases ok with
  | false => exact wp_call (h3.1.lift acc_iunlockput) fun _ _ h4 => h.same h4.1
  | true =>
  refine wp_call (h3.1.lift acc_iunlockput) fun _ s4 h4 => ?_
  split_ifs
  · exact h.same h4.1
  · exact (h.same h4.1).setProc (fun _ => rfl) fun _ => rfl

/-- `fork` copies the descriptors of the parent to the child, which has none. -/
lemma books_forkLoop (hp : p < NPROC) (hnp : np < NPROC) (m : Nat) :
    ∀ fd (Q : Nat → Proc) s, fd + m ≤ NOFILE → (∀ i < NOFILE, fd ≤ i → (Q np).ofile i = none) →
    Books Q (ofiles Q) [] N c H L s →
    (forkLoop p np fd m).wp (fun _ s' => ∃ Q', Books Q' (ofiles Q') [] N c H L s' ∧
      (∀ q, q ≠ np → Q' q = Q q) ∧ (Q' np).cwd = (Q np).cwd) AnyStop s := by
  induction m with
  | zero => exact fun fd Q s _ _ h => ⟨Q, h, fun _ _ => rfl, rfl⟩
  | succ m ih =>
    intro fd Q s hle hfree h
    refine wp_read.mpr ?_
    rw [h.proc]
    cases ho : (Q p).ofile fd with
    | none => exact ih (fd + 1) Q s (by omega) (fun i hi hge => hfree i hi (by omega)) h
    | some f =>
      have hfd : fd < NOFILE := by omega
      refine wp_call (books_filedup h (h.descriptor hp hfd ho).1) fun _ s1 h1 => ?_
      refine wp_write.mpr ?_
      have hnone := hfree fd hfd le_rfl
      have h2 := (h1.setProc (p := np) (Proc.setFd fd (some f))).newFd hnp hfd hnone
      refine wp_mono (ih (fd + 1) _ _ (by omega) (fun i hi hge => ?_) h2)
        (fun _ s3 h3 => ?_) fun _ _ he => he
      · rw [upd_same]
        change (if i = fd then _ else _) = _
        rw [if_neg (by omega)]
        exact hfree i hi (by omega)
      · obtain ⟨Q', hb, hsame, hcwd⟩ := h3
        refine ⟨Q', hb, fun q hq => ?_, ?_⟩
        · rw [hsame q hq, upd_ne hq]
        · rw [hcwd, upd_same]
          rfl

/-- The child takes a reference for each one it copies. -/
lemma settled_fork (h : Settled N s) (hl : Live s p) {child : Option Nat}
    (hchild : ∀ np, child = some np → np < NPROC ∧ (s.proc np).cwd = none) :
    (fork p child).wp (fun _ s' => Settled N s') AnyStop s := by
  cases child with
  | none => exact h
  | some np =>
  obtain ⟨hnp, hnone⟩ := hchild np rfl
  have hne := hl.ne hnone
  refine wp_read.mpr (wp_write.mpr ?_)
  obtain ⟨s1, hs1⟩ : ∃ s1, s1 = s.setProc np fun pr => { pr with sz := (s.proc p).sz } := ⟨_, rfl⟩
  have h1 : Settled N s1 := hs1 ▸ h.setProc (fun _ => rfl) fun _ => rfl
  have hchild1 : (s1.proc np).cwd = none := by
    rw [hs1]
    change (upd s.proc np _ np).cwd = _
    rw [upd_same]
    exact hnone
  rw [← hs1]
  refine wp_call (books_forkLoop hl.lt hnp NOFILE 0 s1.proc s1 (Nat.zero_add _).le
    (fun i hi _ => h1.dead np hnp hchild1 i hi) h1.books) fun _ s2 h2 => ?_
  obtain ⟨Q, hb, hsame, hcwd⟩ := h2
  have hcwds : cwds Q = cwds s1.proc := funext fun k => occ_congr fun q _ => by
    by_cases hq : q = np
    · rw [hq, hcwd]
    · rw [hsame q hq]
  refine wp_read.mpr ?_
  rw [hb.proc]
  cases hc : (Q p).cwd with
  | none => trivial
  | some cwd =>
  rw [← hcwds] at hb
  have hlt := hb.cwd_lt hl.lt cwd (by rw [hb.proc]; exact hc)
  refine wp_call (hb.lift (acc_idup hlt)) fun k s3 h3 => ?_
  refine wp_write.mpr ?_
  -- the reference passes to the child
  have h4 : Books Q (ofiles Q) [] N (cwds (upd Q np { Q np with cwd := some k })) [] [] s3 := by
    refine h3.1.regroup (fun _ => rfl) fun j => ?_
    have hset := cwds_set (P := Q) (v := some k) hnp j
    rw [hcwd, hchild1] at hset
    exact hset
  refine Settled.of_books (P := upd Q np { Q np with cwd := some k }) ?_ fun q hq hdead fd hfd => ?_
  · rw [ofiles_setCwd]
    exact h4.setProc fun pr => { pr with cwd := some k }
  · have hq' : q ≠ np := by
      rintro rfl
      rw [upd_same] at hdead
      cases hdead
    rw [upd_ne hq', hsame q hq'] at hdead ⊢
    exact h1.dead q hq hdead fd hfd

/-- `exit` closes the descriptors of the process. -/
lemma books_exitLoop (hp : p < NPROC) (m : Nat) :
    ∀ fd (Q : Nat → Proc) s, fd + m ≤ NOFILE → (∀ i < fd, (Q p).ofile i = none) →
    Books Q (ofiles Q) [] N c [] [] s →
    (exitLoop p fd m).wp (fun _ s' => ∃ Q', Books Q' (ofiles Q') [] N c [] [] s' ∧
      (∀ q, q ≠ p → Q' q = Q q) ∧ (Q' p).cwd = (Q p).cwd ∧
      ∀ i < fd + m, (Q' p).ofile i = none) AnyStop s := by
  induction m with
  | zero => exact fun fd Q s _ hnone h => ⟨Q, h, fun _ _ => rfl, rfl, hnone⟩
  | succ m ih =>
    intro fd Q s hle hnone h
    have hbelow : ∀ R : Nat → Proc, (R p).ofile fd = none → (∀ i < fd, (R p).ofile i = none) →
        ∀ i < fd + 1, (R p).ofile i = none := fun R hfd hlt i hi => by
      rcases Nat.lt_succ_iff_lt_or_eq.mp hi with hi | rfl
      · exact hlt i hi
      · exact hfd
    refine wp_read.mpr ?_
    rw [h.proc]
    cases ho : (Q p).ofile fd with
    | none =>
      refine wp_mono (ih (fd + 1) Q s (by omega) (hbelow Q ho hnone) h) (fun _ s1 h1 => ?_)
        fun _ _ he => he
      obtain ⟨Q', hb, hsame, hcwd, hall⟩ := h1
      exact ⟨Q', hb, hsame, hcwd, fun i hi => hall i (by omega)⟩
    | some f =>
      have hfd : fd < NOFILE := by omega
      have h1 := h.oldFd hp hfd ho
      refine wp_call (books_fileclose h1 fun _ hk => absurd hk not_mem_nil) fun _ s2 h2 => ?_
      refine wp_write.mpr ?_
      have h3 := h2.setProc (p := p) (Proc.setFd fd none)
      refine wp_mono (ih (fd + 1) _ _ (by omega) (hbelow _ ?_ fun i hi => ?_) h3)
        (fun _ s4 h4 => ?_) fun _ _ he => he
      · rw [upd_same]
        exact if_pos rfl
      · rw [upd_same]
        change (if i = fd then _ else _) = _
        rw [if_neg (by omega)]
        exact hnone i hi
      · obtain ⟨Q', hb, hsame, hcwd, hall⟩ := h4
        refine ⟨Q', hb, fun q hq => ?_, ?_, fun i hi => hall i (by omega)⟩
        · rw [hsame q hq, upd_ne hq]
        · rw [hcwd, upd_same]
          rfl

lemma settled_exit (h : Settled N s) (hl : Live s p) :
    (exit p).wp (fun _ s' => Settled N s') AnyStop s := by
  unfold exit
  split_ifs
  · trivial
  refine wp_call (books_exitLoop hl.lt NOFILE 0 s.proc s (Nat.zero_add _).le
    (fun i hi => absurd hi (Nat.not_lt_zero i)) h.books) fun _ s1 h1 => ?_
  obtain ⟨Q, hb, hsame, hcwd, hall⟩ := h1
  have hcwds : cwds Q = cwds s.proc := funext fun k => occ_congr fun q _ => by
    by_cases hq : q = p
    · rw [hq, hcwd]
    · rw [hsame q hq]
  rw [← hcwds] at hb
  refine wp_read.mpr ?_
  rw [hb.proc]
  cases hc : (Q p).cwd with
  | none => trivial
  | some cwd =>
  have h2 : Books Q (ofiles Q) [] N (cwds (upd Q p { Q p with cwd := none })) [cwd] [] s1 := by
    refine hb.regroup (fun _ => rfl) fun k => ?_
    have hset := cwds_set (P := Q) (v := none) hl.lt k
    rw [hc] at hset
    exact hset
  refine wp_call (h2.lift (acc_iput fun hmem => absurd hmem not_mem_nil))
    fun _ s3 h3 => ?_
  refine Settled.of_books (P := upd Q p { Q p with cwd := none }) ?_ fun q hq hdead fd hfd => ?_
  · rw [ofiles_setCwd]
    exact h3.1.setProc fun pr => { pr with cwd := none }
  · by_cases hqp : q = p
    · rw [hqp, upd_same]
      exact hall fd ((Nat.zero_add NOFILE).symm ▸ hfd)
    · rw [upd_ne hqp] at hdead ⊢
      rw [hsame q hqp] at hdead ⊢
      exact h.dead q hq hdead fd hfd

/-! ### Every call -/

/-- The calls of a run: all but `getcwd`; the child of `fork` is a process that is not running. -/
def Syscall.Proper (s : State) : Syscall → Prop
  | .getcwd _ _ => False
  | .fork child => ∀ np, child = some np → np < NPROC ∧ (s.proc np).cwd = none
  | _ => True

lemma settled_code (h : Settled N s) (hl : Live s p) {call : Syscall} (hcall : call.Proper s) :
    (call.code p).wp (fun _ s' => Settled N s') AnyStop s := by
  have hcwd := h.books.cwd_lt hl.lt
  cases call with
  | dup d => exact settled_sysDup h hl d
  | read d ptr n => exact wp_call (settled_sysRead h hl d ptr n) fun _ _ h1 => h1
  | write d ptr n src => exact settled_sysWrite h hl d ptr n src
  | close d => exact settled_sysClose h hl d
  | fstat d => exact settled_sysFstat h hl d
  | link old new => exact h.lift (acc_sysLink hcwd)
  | unlink path => exact h.lift (acc_sysUnlink hcwd)
  | «open» path omode => exact settled_sysOpen h hl
  | mkdir path => exact h.lift (acc_mkNode hcwd)
  | mknod path major minor => exact h.lift (acc_mkNode hcwd)
  | chdir path => exact settled_sysChdir h hl
  | exec path vm => exact settled_sysExec h hl
  | pipe ptr => exact settled_sysPipe h hl ptr
  | getcwd ptr n => exact hcall.elim
  | fork child => exact settled_fork h hl hcall
  | exit => exact wp_call (settled_exit h hl) fun _ _ h1 => h1
  | kill q => exact h.setProc (fun _ => rfl) fun _ => rfl
  | sbrk sz => exact h.setProc (fun _ => rfl) fun _ => rfl

end Calls

/-! ### Runs -/

/-- A live process makes a call, and the call returns. -/
def CallStep (s s' : State) : Prop :=
  ∃ p call r, Live s p ∧ Syscall.Proper s call ∧ (call.code p).run s = .ok r s'

/-- Characters arrive at the console, and the rest of the kernel takes pages from the free list and
puts them back. -/
def OtherStep (s s' : State) : Prop :=
  ∃ input freelist, s' = { s with input := input, freelist := freelist } ∧ freelist.Nodup ∧
    ∀ g ∈ freelist, pipePage s.file g = 0

/-- The states that runs of calls reach from the boot of a disk. -/
inductive Reached (sect : Nat → Bytes) : State → Prop
  | boot : Reached sect (Xv6.boot sect)
  | call {s s' : State} (h : Reached sect s) (hs : CallStep s s') : Reached sect s'
  | other {s s' : State} (h : Reached sect s) (hs : OtherStep s s') : Reached sect s'

section Run

variable {sect : Nat → Bytes} {s s' : State} {N : Nat → Nat}

lemma boot_pipePage (g : Nat) : pipePage (boot sect).file g = 0 := by
  unfold pipePage
  refine if_neg ?_
  rintro ⟨f, -, w, he⟩
  exact absurd he.1 (by simp [boot])

/-- After boot only the root directory is held. -/
lemma settled_boot : Settled (fun _ => 0) (boot sect) := by
  have hofile : ∀ p, ((boot sect).proc p).ofile = fun _ => none := fun p => by
    change (upd (fun _ => ({} : Proc)) 0 { cwd := some 0 } p).ofile = _
    unfold upd
    split_ifs <;> rfl
  have hslots : ∀ f, slots (ofiles (boot sect).proc) f = 0 := fun f =>
    occ_eq_zero fun x _ => by
      unfold ofiles
      rw [hofile]
      simp
  have hcwds : ∀ k, cwds (boot sect).proc k = [0].count k := fun k => by
    have hset := cwds_set (P := fun _ => ({} : Proc)) (v := some 0) (by decide : 0 < NPROC) k
    have hzero : cwds (fun _ => ({} : Proc)) k = 0 := occ_eq_zero fun _ _ => by simp
    rw [hzero] at hset
    change cwds (upd (fun _ => ({} : Proc)) 0 { cwd := some 0 }) k = _
    simpa using hset
  have hfiles : ∀ k, inodeFiles (boot sect).file k = 0 := fun k => occ_eq_zero fun _ _ => by
    change ({} : File).inode ≠ _
    rw [File.inode_eq_none _ (.inl rfl)]
    simp
  refine ⟨⟨rfl, ⟨fun f _ => ?_, fun f hf => ?_, fun _ _ _ => rfl, fun f _ g w he => ?_,
    fun f _ _ _ g w he => ?_, fun g => ?_, fun _ => Nat.zero_le _⟩,
    ⟨SameTables.refl _, fun k _ => ?_, fun k hk => ?_, fun k _ => ?_, by simp, nodup_nil⟩⟩,
    fun p _ _ fd _ => by rw [hofile]⟩
  · rw [hslots]
    rfl
  · rw [hslots] at hf
    exact absurd hf (Nat.lt_irrefl 0)
  · exact absurd he.1 (by simp [boot])
  · exact absurd he.1 (by simp [boot])
  · rw [boot_pipePage]
    rfl
  · rw [hfiles, hcwds]
    by_cases hk : k = 0
    · rw [hk]
      rfl
    · rw [boot_inode_ne hk, count_singleton, if_neg (by simpa using Ne.symm hk)]
      rfl
  · rw [hfiles, hcwds] at hk
    by_cases h0 : k = 0
    · rw [h0]
      decide
    · rw [count_singleton, if_neg (by simpa using Ne.symm h0)] at hk
      exact absurd hk (Nat.lt_irrefl 0)
  · by_cases h0 : k = 0
    · rw [h0]
      simp [boot]
    · rw [boot_inode_ne h0]
      simp

lemma Settled.call (h : Settled N s) (hs : CallStep s s') : Settled N s' := by
  obtain ⟨p, call, r, hl, hcall, hr⟩ := hs
  have hcode := wp_ok (settled_code h hl hcall) hr
  exact hcode

/-- Another free list without pages of pipes. -/
lemma Settled.refree (h : Settled N s) (hs : s' = { s with freelist := s'.freelist })
    (hfree : ∀ g, s'.freelist.count g + pipePage s.file g ≤ 1) : ∃ N', Settled N' s' := by
  rw [hs]
  exact ⟨_, h.books.setFree hfree s.input, h.dead⟩

lemma Settled.other (h : Settled N s) (hs : OtherStep s s') : ∃ N', Settled N' s' := by
  obtain ⟨input, l, rfl, hnodup, hfree⟩ := hs
  refine ⟨_, h.books.setFree (fun g => ?_) input, h.dead⟩
  by_cases hg : g ∈ l
  · have := nodup_iff_count_le_one.mp hnodup g
    rw [hfree g hg]
    omega
  · rw [count_eq_zero.mpr hg]
    unfold pipePage
    split_ifs <;> omega

lemma Reached.settled (h : Reached sect s) : ∃ N, Settled N s := by
  induction h with
  | boot => exact ⟨_, settled_boot⟩
  | call _ hs ih =>
    obtain ⟨N, hN⟩ := ih
    exact ⟨N, hN.call hs⟩
  | other _ hs ih =>
    obtain ⟨N, hN⟩ := ih
    exact hN.other hs

/-- After every call the references to an entry of the inode cache are those of the open files and
of the current directories, and no entry is locked. -/
theorem inode_references_counted (h : Reached sect s) : ∀ k < NINODE,
    (s.inode k).ref = ((inodeFiles s.file k + cwds s.proc k : Nat) : Int) ∧
      (s.inode k).busy = false := by
  intro k hk
  obtain ⟨N, hN⟩ := h.settled
  refine ⟨hN.books.inodes.ref k hk, ?_⟩
  cases hb : (s.inode k).busy with
  | false => rfl
  | true => exact absurd ((hN.books.inodes.busy k hk).mp hb) not_mem_nil

/-- Where a call of process `p` ends. -/
def Syscall.next (p : Nat) (call : Syscall) (s : State) : State :=
  match (call.code p).run s with
  | .ok _ s' => s'
  | .stop _ s' => s'

lemma Reached.next {r : Int} (h : Reached sect s) (p : Nat) (call : Syscall) (hl : Live s p)
    (hcall : call.Proper s) (hr : (call.code p).run s = .ok r (call.next p s)) :
    Reached sect (call.next p s) := .call h ⟨p, call, r, hl, hcall, hr⟩

/-- After `fork` the root directory is the current directory of two processes. -/
theorem inode_references_counted_fork : ∃ s, Reached (fun _ _ => 0) s ∧ (s.inode 0).ref = 2 ∧
    (s.inode 0).ref = ((inodeFiles s.file 0 + cwds s.proc 0 : Nat) : Int) ∧
    (s.inode 0).busy = false := by
  have hreach : Reached (fun _ _ => 0) ((Syscall.fork (some 1)).next 0 (boot fun _ _ => 0)) := by
    refine Reached.next .boot 0 _ ⟨by decide, by decide⟩ (fun np hnp => ?_) rfl
    obtain rfl := Option.some.inj hnp
    exact ⟨by decide, rfl⟩
  exact ⟨_, hreach, rfl, inode_references_counted hreach 0 (by decide)⟩

/-- A descriptor refers to an end of the pipe in page `g`. -/
def PageHeld (s : State) (g : Nat) : Prop :=
  ∃ p < NPROC, ∃ fd < NOFILE, ∃ f w, (s.proc p).ofile fd = some f ∧ (s.file f).IsEnd g w

/-- What a call does with page `g`: the page is taken from the free list when a pipe is made in it,
and put back once, when the last descriptor of the second end is dropped. -/
structure PageMoves (s s' : State) (g : Nat) : Prop where
  used : PageHeld s' g → s'.freelist.count g = 0
  taken : ¬ PageHeld s g → PageHeld s' g → s.freelist.count g = 1
  freed : PageHeld s g → ¬ PageHeld s' g → s.freelist.count g = 0 ∧ s'.freelist.count g = 1
  kept : ¬ PageHeld s g → ¬ PageHeld s' g → s'.freelist.count g = s.freelist.count g

lemma Settled.pipePage_of_held (h : Settled N s) {g : Nat} (hg : PageHeld s g) :
    pipePage s.file g = 1 := by
  obtain ⟨p, hp, fd, hfd, f, w, ho, he⟩ := hg
  exact if_pos ⟨f, (h.books.descriptor hp hfd ho).1, w, he⟩

lemma Settled.pipePage_of_not_held (h : Settled N s) {g : Nat} (hg : ¬ PageHeld s g) :
    pipePage s.file g = 0 := by
  refine if_neg fun ⟨f, hf, w, he⟩ => hg ?_
  have href := h.books.table.ref f hf
  have hpos : 0 < slots (ofiles s.proc) f := by
    by_contra hzero
    have h0 : (s.file f).ref = 0 := by
      rw [href]
      simp only [count_nil]
      omega
    exact absurd ((h.books.table.closed f hf h0).symm.trans he.1) (by decide)
  unfold slots at hpos
  obtain ⟨x, hx, ho⟩ := exists_of_occ_pos hpos
  obtain ⟨hp, hfd⟩ := of_mem_slotSet hx
  exact ⟨x.1, hp, x.2, hfd, f, w, ho, he⟩

lemma Settled.pageMoves (h : Settled N s) (h' : Settled N s') (g : Nat) : PageMoves s s' g := by
  have hp := h.books.table.pages g
  have hp' := h'.books.table.pages g
  have honce := h.books.table.once g
  refine ⟨fun hg' => ?_, fun hg hg' => ?_, fun hg hg' => ?_, fun hg hg' => ?_⟩
  · have := h'.pipePage_of_held hg'
    omega
  · have := h.pipePage_of_not_held hg
    have := h'.pipePage_of_held hg'
    omega
  · have := h.pipePage_of_held hg
    have := h'.pipePage_of_not_held hg'
    omega
  · have := h.pipePage_of_not_held hg
    have := h'.pipePage_of_not_held hg'
    omega

/-- After every call the references to an entry of the file table are those of the descriptors, only
entries in use have a type or a descriptor, and each call frees a pipe's page as it should. -/
theorem file_references_counted (h : Reached sect s) :
    (∀ f < NFILE, (s.file f).ref = (slots (ofiles s.proc) f : Int)) ∧
    (∀ f < NFILE, (s.file f).ref = 0 → (s.file f).type = .none) ∧
    (∀ p < NPROC, ∀ fd < NOFILE, ∀ f, (s.proc p).ofile fd = some f →
      f < NFILE ∧ 0 < (s.file f).ref) ∧
    ∀ s', CallStep s s' → ∀ g, PageMoves s s' g := by
  obtain ⟨N, hN⟩ := h.settled
  have ht := hN.books.table
  refine ⟨fun f hf => ?_, ht.closed, fun p hp fd hfd f ho => ?_, fun s' hs g => ?_⟩
  · rw [ht.ref f hf]
    simp
  · exact hN.books.descriptor hp hfd ho
  · exact hN.pageMoves (hN.call hs) g

/-- Process 0 has made a pipe in page 7 and closed the read end. -/
def halfOpen : State :=
  (Syscall.close 0).next 0 <| (Syscall.pipe 0).next 0 <| (Syscall.sbrk 4096).next 0
    { boot fun _ _ => 0 with freelist := [7] }

lemma reached_halfOpen : Reached (fun _ _ => 0) halfOpen := by
  have h0 : Reached (fun _ _ => 0) { boot fun _ _ => 0 with freelist := [7] } :=
    .other .boot ⟨[], [7], rfl, by decide, fun g _ => boot_pipePage g⟩
  have h1 := h0.next 0 (.sbrk 4096) ⟨by decide, by decide⟩ trivial rfl
  have h2 := h1.next 0 (.pipe 0) ⟨by decide, by decide⟩ trivial rfl
  exact h2.next 0 (.close 0) ⟨by decide, by decide⟩ trivial rfl

/-- The `close` of the write end frees the page. -/
theorem file_references_counted_pipe : ∃ s', Reached (fun _ _ => 0) halfOpen ∧
    CallStep halfOpen s' ∧ (halfOpen.file 1).ref = (slots (ofiles halfOpen.proc) 1 : Int) ∧
    PageHeld halfOpen 7 ∧ ¬ PageHeld s' 7 ∧ s'.freelist.count 7 = 1 := by
  obtain ⟨hrefs, -, -, hpages⟩ := file_references_counted reached_halfOpen
  have hclose : CallStep halfOpen ((Syscall.close 1).next 0 halfOpen) :=
    ⟨0, .close 1, 0, ⟨by decide, by decide⟩, trivial, rfl⟩
  have hheld : PageHeld halfOpen 7 :=
    ⟨0, by decide, 1, by decide, 1, true, rfl, rfl, rfl, rfl⟩
  have hfree : ¬ PageHeld ((Syscall.close 1).next 0 halfOpen) 7 := fun hg =>
    absurd ((hpages _ hclose 7).used hg) (by decide)
  exact ⟨_, reached_halfOpen, hclose, hrefs 1 (by decide), hheld, hfree,
    ((hpages _ hclose 7).freed hheld hfree).2⟩

end Run

end Xv6
