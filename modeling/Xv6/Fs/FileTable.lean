import Xv6.Lib.Count
import Xv6.Fs.References

/-!
# The file table

A reference to an entry of the file table belongs to a descriptor of a process or to the call that
is running. With the last one `fileclose` gives back what the entry stands for: the reference to an
inode, or one end of a pipe and with the second end the page. The specifications of `file.c` and
`pipe.c` are about the whole books: who refers to files, inodes and pages. -/

namespace Xv6

open Lib Prog List

/-! ### What is counted -/

/-- The descriptor slots of all processes. -/
@[irreducible] def slotSet : Finset (Nat × Nat) := Finset.range NPROC ×ˢ Finset.range NOFILE

def ofiles (P : Nat → Proc) (x : Nat × Nat) : Option Nat := (P x.1).ofile x.2

/-- The number of descriptor slots that hold file `f`. -/
def slots (O : Nat × Nat → Option Nat) (f : Nat) : Nat := occ slotSet O (some f)

/-- The number of processes whose current directory is entry `k` of the inode cache. -/
def cwds (P : Nat → Proc) (k : Nat) : Nat := occ (Finset.range NPROC) (fun p => (P p).cwd) (some k)

/-- The inode that an entry of the file table refers to. -/
def File.inode (fl : File) :
    Option Nat := if 0 < fl.ref ∧ fl.type = .inode then some fl.ip else none

/-- The number of entries of the file table that refer to entry `k` of the inode cache. -/
def inodeFiles (file : Nat → File) (k : Nat) : Nat :=
  occ (Finset.range NFILE) (fun f => (file f).inode) (some k)

/-- The entry is the end of the pipe in page `g` that is written (`w`) or read. -/
def File.IsEnd (fl : File) (g : Nat) (w : Bool) : Prop :=
  fl.type = .pipe ∧ fl.pipe = g ∧ fl.writable = w

instance (fl : File) (g : Nat) (w : Bool) : Decidable (fl.IsEnd g w) :=
  inferInstanceAs (Decidable (_ ∧ _ ∧ _))

/-- The flag of one end. -/
def Pipe.isOpen (p : Pipe) (w : Bool) : Bool := if w then p.writeopen else p.readopen

/-- Whether page `g` belongs to a pipe that an entry of the file table refers to, as a number. -/
def pipePage (file : Nat → File) (g : Nat) : Nat :=
  if ∃ f < NFILE, ∃ w, (file f).IsEnd g w then 1 else 0

/-- The accounts of the file table, for the descriptors `O` and the references `F` of the running
call. Page `g` is on the free list or in a pipe, `N g` times in all. -/
structure Table (O : Nat × Nat → Option Nat) (F : List Nat) (N : Nat → Nat) (s : State) : Prop where
  ref : ∀ f < NFILE, (s.file f).ref = ((slots O f + F.count f : Nat) : Int)
  lt : ∀ f, 0 < slots O f + F.count f → f < NFILE
  closed : ∀ f < NFILE, (s.file f).ref = 0 → (s.file f).type = .none
  ends : ∀ f < NFILE, ∀ g w, (s.file f).IsEnd g w → ∀ w',
    (s.pipe g).isOpen w' = true ↔ ∃ f' < NFILE, (s.file f').IsEnd g w'
  unique : ∀ f < NFILE, ∀ f' < NFILE, ∀ g w, (s.file f).IsEnd g w → (s.file f').IsEnd g w → f = f'
  pages : ∀ g, s.freelist.count g + pipePage s.file g = N g
  once : ∀ g, N g ≤ 1

/-- The books of the kernel while a call is running: the processes are `P`, the descriptors count as
`O` says and the current directories as `c` says; the call has the references `F` to files and `H`
to inodes, and it has locked the inodes `L`. -/
structure Books (P : Nat → Proc) (O : Nat × Nat → Option Nat) (F : List Nat) (N c : Nat → Nat)
    (H L : List Nat) (s : State) : Prop where
  proc : s.proc = P
  table : Table O F N s
  inodes : Accounts s (fun k => inodeFiles s.file k + c k) H L s

section Table

variable {s s' : State} {O O' : Nat × Nat → Option Nat} {F F' : List Nat}
  {N : Nat → Nat} {f g : Nat}

lemma Table.regroup (h : Table O F N s)
    (heq : ∀ f, slots O' f + F'.count f = slots O f + F.count f) : Table O' F' N s :=
  ⟨fun f hf => by rw [heq]; exact h.ref f hf, fun f hf => h.lt f (heq f ▸ hf), h.closed, h.ends,
    h.unique, h.pages, h.once⟩

lemma Table.same (h : Table O F N s) (hfile : s'.file = s.file) (hpipe : s'.pipe = s.pipe)
    (hlist : s'.freelist = s.freelist) : Table O F N s' := by
  refine ⟨?_, h.lt, ?_, ?_, ?_, ?_, h.once⟩
  · rw [hfile]
    exact h.ref
  · rw [hfile]
    exact h.closed
  · rw [hfile, hpipe]
    exact h.ends
  · rw [hfile]
    exact h.unique
  · rw [hfile, hlist]
    exact h.pages

/-- Only the reference count of an entry is changed, or what no end of a pipe depends on. -/
lemma Table.setFile (h : Table O F N s) (F' : List Nat) {u : File → File} (hf : f < NFILE)
    (href : (u (s.file f)).ref = ((slots O f + F'.count f : Nat) : Int))
    (hF : ∀ f', f' ≠ f → F'.count f' = F.count f')
    (hnone : (u (s.file f)).ref = 0 → (u (s.file f)).type = .none)
    (hend : ∀ g w, (u (s.file f)).IsEnd g w ↔ (s.file f).IsEnd g w) :
    Table O F' N (s.setFile f u) := by
  have hfile : ∀ f', (s.setFile f u).file f' = if f' = f then u (s.file f) else s.file f' :=
    fun f' => rfl
  have hends : ∀ f' g w, ((s.setFile f u).file f').IsEnd g w ↔ (s.file f').IsEnd g w := by
    intro f' g w
    rw [hfile]
    split_ifs with he
    · rw [he]
      exact hend g w
    · exact Iff.rfl
  have hpage : ∀ g, pipePage (s.setFile f u).file g = pipePage s.file g := fun g => by
    unfold pipePage
    simp only [hends]
  refine ⟨fun f' hf' => ?_, fun f' hf' => ?_, fun f' hf' => ?_, fun f' hf' g w he w' => ?_,
    fun f1 h1 f2 h2 g w he1 he2 => ?_, fun g => ?_, h.once⟩
  · rw [hfile]
    split_ifs with he
    · rw [he]
      exact href
    · rw [hF f' he]
      exact h.ref f' hf'
  · by_cases he : f' = f
    · exact he ▸ hf
    · rw [hF f' he] at hf'
      exact h.lt f' hf'
  · rw [hfile]
    split_ifs with he
    · exact hnone
    · exact h.closed f' hf'
  · simp only [hends] at he ⊢
    exact h.ends f' hf' g w he w'
  · rw [hends] at he1 he2
    exact h.unique f1 h1 f2 h2 g w he1 he2
  · rw [hpage]
    exact h.pages g

/-- A page of the free list is the page of no pipe. -/
lemma Table.not_isEnd (h : Table O F N s) (hg : g ∈ s.freelist) (hf : f < NFILE) (w : Bool) :
    ¬ (s.file f).IsEnd g w := by
  intro he
  have hpages := h.pages g
  have honce := h.once g
  have hcount := count_pos_iff.mpr hg
  unfold pipePage at hpages
  rw [if_pos ⟨f, hf, w, he⟩] at hpages
  omega

/-- Two new entries become the ends of a pipe in a page from the free list. -/
lemma Table.newPipe (h : Table O F N s) {f0 f1 : Nat} {l : List Nat} (h0 : f0 < NFILE)
    (h1 : f1 < NFILE) (hne : f0 ≠ f1) (ht0 : (s.file f0).type = .none)
    (ht1 : (s.file f1).type = .none) (hr0 : (s.file f0).ref ≠ 0) (hr1 : (s.file f1).ref ≠ 0)
    (hl : s.freelist = g :: l) (hu0 : (s'.file f0).ref = (s.file f0).ref)
    (hu1 : (s'.file f1).ref = (s.file f1).ref) (he0 : (s'.file f0).IsEnd g false)
    (he1 : (s'.file f1).IsEnd g true) (hold : ∀ f, f ≠ f0 → f ≠ f1 → s'.file f = s.file f)
    (hpipe : s'.pipe = upd s.pipe g { readopen := true, writeopen := true })
    (hs' : s'.freelist = l) : Table O F N s' := by
  have hg : g ∈ s.freelist := hl ▸ mem_cons_self
  have hnone : ∀ f, (s.file f).type = .none → ∀ g w, ¬ (s.file f).IsEnd g w :=
    fun f ht g w he => absurd (ht.symm.trans he.1) (by decide)
  -- the ends of `g` are the new ones, and those of other pages the old ones
  have hnew : ∀ f < NFILE, ∀ w, (s'.file f).IsEnd g w ↔ f = f0 ∧ w = false ∨ f = f1 ∧ w = true := by
    intro f hf w
    by_cases hf0 : f = f0
    · subst hf0
      constructor
      · exact fun he => .inl ⟨rfl, he.2.2.symm.trans he0.2.2⟩
      · rintro (⟨-, rfl⟩ | ⟨he, -⟩)
        · exact he0
        · exact absurd he hne
    · by_cases hf1 : f = f1
      · subst hf1
        constructor
        · exact fun he => .inr ⟨rfl, he.2.2.symm.trans he1.2.2⟩
        · rintro (⟨he, -⟩ | ⟨-, rfl⟩)
          · exact absurd he hf0
          · exact he1
      · rw [hold f hf0 hf1]
        exact ⟨fun he => absurd he (h.not_isEnd hg hf w), by simp [hf0, hf1]⟩
  have hother : ∀ f g', g' ≠ g → ∀ w, (s'.file f).IsEnd g' w ↔ (s.file f).IsEnd g' w := by
    intro f g' hg' w
    by_cases hf0 : f = f0
    · subst hf0
      exact ⟨fun he => absurd (he.2.1.symm.trans he0.2.1) hg',
        fun he => absurd he (hnone _ ht0 _ _)⟩
    · by_cases hf1 : f = f1
      · subst hf1
        exact ⟨fun he => absurd (he.2.1.symm.trans he1.2.1) hg',
          fun he => absurd he (hnone _ ht1 _ _)⟩
      · rw [hold f hf0 hf1]
  refine ⟨fun f hf => ?_, h.lt, fun f hf hr => ?_, fun f hf g' w he w' => ?_,
    fun f hf f' hf' g' w he he' => ?_, fun g' => ?_, h.once⟩
  · by_cases hf1 : f = f1
    · rw [hf1, hu1]
      exact h.ref f1 h1
    · by_cases hf0 : f = f0
      · rw [hf0, hu0]
        exact h.ref f0 h0
      · rw [hold f hf0 hf1]
        exact h.ref f hf
  · by_cases hf1 : f = f1
    · rw [hf1, hu1] at hr
      exact absurd hr hr1
    · by_cases hf0 : f = f0
      · rw [hf0, hu0] at hr
        exact absurd hr hr0
      · rw [hold f hf0 hf1] at hr ⊢
        exact h.closed f hf hr
  · by_cases hg' : g' = g
    · subst hg'
      rw [hpipe, upd_same]
      cases w' with
      | false => exact ⟨fun _ => ⟨f0, h0, (hnew f0 h0 _).mpr (.inl ⟨rfl, rfl⟩)⟩, fun _ => rfl⟩
      | true => exact ⟨fun _ => ⟨f1, h1, (hnew f1 h1 _).mpr (.inr ⟨rfl, rfl⟩)⟩, fun _ => rfl⟩
    · rw [hpipe, upd_ne hg']
      simp only [hother _ _ hg'] at he ⊢
      exact h.ends f hf g' w he w'
  · by_cases hg' : g' = g
    · subst hg'
      rcases (hnew f hf w).mp he with ⟨rfl, rfl⟩ | ⟨rfl, rfl⟩
      · rcases (hnew f' hf' _).mp he' with ⟨rfl, -⟩ | ⟨-, hw⟩
        · rfl
        · cases hw
      · rcases (hnew f' hf' _).mp he' with ⟨-, hw⟩ | ⟨rfl, -⟩
        · cases hw
        · rfl
    · rw [hother _ _ hg'] at he he'
      exact h.unique f hf f' hf' g' w he he'
  · rw [← h.pages g', hs', hl]
    by_cases hg' : g' = g
    · subst hg'
      have hafter : pipePage s'.file g' = 1 :=
        if_pos ⟨f0, h0, false, (hnew f0 h0 _).mpr (.inl ⟨rfl, rfl⟩)⟩
      have hbefore : pipePage s.file g' = 0 :=
        if_neg fun ⟨f, hf, w, he⟩ => h.not_isEnd hg hf w he
      rw [hafter, hbefore, count_cons_self]
    · have hsame : pipePage s'.file g' = pipePage s.file g' := by
        unfold pipePage
        simp only [hother _ _ hg']
      rw [hsame, count_cons_of_ne (Ne.symm hg')]

section Close

variable {f' g' : Nat} {w w' : Bool}

lemma Pipe.isOpen_close {q : Pipe} :
    (q.close w).isOpen w' = true ↔ w' ≠ w ∧ q.isOpen w' = true := by
  cases w <;> cases w' <;> simp [Pipe.close, Pipe.isOpen]

/-- An entry that nothing refers to is no end of a pipe. -/
lemma isEnd_closed {file : Nat → File} :
    (upd file f { file f with ref := 0, type := .none } f').IsEnd g w ↔
      f' ≠ f ∧ (file f').IsEnd g w := by
  by_cases he : f' = f
  · subst he
    simp [File.IsEnd]
  · simp [upd_ne he, he]

/-- The flags of a pipe say which of its ends are left when one of them is closed. -/
lemma Table.left (h : Table O F N s) (hf : f < NFILE) (hend : (s.file f).IsEnd g w) (w' : Bool) :
    ((s.pipe g).close w).isOpen w' = true ↔
      ∃ f' < NFILE, f' ≠ f ∧ (s.file f').IsEnd g w' := by
  rw [Pipe.isOpen_close, h.ends f hf g w hend w']
  constructor
  · rintro ⟨hw, f', hf', he⟩
    refine ⟨f', hf', ?_, he⟩
    rintro rfl
    exact hw (he.2.2.symm.trans hend.2.2)
  · rintro ⟨f', hf', hne, he⟩
    refine ⟨?_, f', hf', he⟩
    rintro rfl
    exact hne (h.unique f' hf' f hf g w' he hend)

/-- The page of a pipe stays in use while one of its ends is open. -/
lemma Table.page_closed (h : Table O F N s) (hf : f < NFILE) (hend : (s.file f).IsEnd g w) :
    pipePage (upd s.file f { s.file f with ref := 0, type := .none }) g =
      if ((s.pipe g).close w).readopen = false ∧ ((s.pipe g).close w).writeopen = false
      then 0 else 1 := by
  unfold pipePage
  simp only [isEnd_closed]
  split_ifs with hsome hboth hboth
  · obtain ⟨f', hf', w', he⟩ := hsome
    have hopen := (h.left hf hend _).mpr ⟨f', hf', he⟩
    cases w' with
    | false => exact absurd (hboth.1.symm.trans hopen) Bool.false_ne_true
    | true => exact absurd (hboth.2.symm.trans hopen) Bool.false_ne_true
  · rfl
  · rfl
  · refine absurd ⟨?_, ?_⟩ hboth
    · refine eq_false_of_ne_true fun hr => hsome ?_
      obtain ⟨f', hf', he⟩ := (h.left hf hend false).mp hr
      exact ⟨f', hf', _, he⟩
    · refine eq_false_of_ne_true fun hw => hsome ?_
      obtain ⟨f', hf', he⟩ := (h.left hf hend true).mp hw
      exact ⟨f', hf', _, he⟩

/-- An end of another pipe is not the one that is closed. -/
lemma isEnd_closed_ne (hend : (s.file f).IsEnd g w) (hg : g' ≠ g) :
    (upd s.file f { s.file f with ref := 0, type := .none } f').IsEnd g' w' ↔
      (s.file f').IsEnd g' w' := by
  rw [isEnd_closed]
  refine ⟨fun he => he.2, fun he => ⟨?_, he⟩⟩
  rintro rfl
  exact hg (he.2.1.symm.trans hend.2.1)

/-- The last reference to an end of a pipe is dropped: the end is closed, and with the second one
the page goes to the free list. -/
lemma Table.closeEnd (h : Table O (f :: F) N s) (hone : (s.file f).ref = 1)
    (hend : (s.file f).IsEnd g w)
    (hfile : s'.file = upd s.file f { s.file f with ref := 0, type := .none })
    (hpipe : s'.pipe = upd s.pipe g ((s.pipe g).close w))
    (hlist : s'.freelist = if ((s.pipe g).close w).readopen = false ∧
      ((s.pipe g).close w).writeopen = false then g :: s.freelist else s.freelist) :
    Table O F N s' := by
  have hf : f < NFILE := h.lt f (by rw [count_cons_self]; omega)
  have href := h.ref f hf
  rw [hone, count_cons_self] at href
  refine ⟨fun f' hf' => ?_, fun f' hf' => ?_, fun f' hf' hr => ?_, fun f' hf' g' v he w' => ?_,
    fun f1 h1 f2 h2 g' v he1 he2 => ?_, fun g' => ?_, h.once⟩
  · by_cases he : f' = f
    · rw [hfile, he, upd_same]
      change (0 : Int) = _
      omega
    · rw [hfile, upd_ne he, h.ref f' hf', count_cons_of_ne (Ne.symm he)]
  · refine h.lt f' ?_
    have := count_le_count_cons (a := f') (b := f) (l := F)
    omega
  · rw [hfile] at hr ⊢
    by_cases he : f' = f
    · rw [he, upd_same]
    · rw [upd_ne he] at hr ⊢
      exact h.closed f' hf' hr
  · rw [hfile] at he ⊢
    by_cases hg : g' = g
    · rw [hg, hpipe, upd_same, h.left hf hend]
      simp only [isEnd_closed]
    · rw [isEnd_closed_ne hend hg] at he
      rw [hpipe, upd_ne hg, h.ends f' hf' g' v he w']
      simp only [isEnd_closed_ne hend hg]
  · rw [hfile, isEnd_closed] at he1 he2
    exact h.unique f1 h1 f2 h2 g' v he1.2 he2.2
  · rw [← h.pages g', hfile, hlist]
    by_cases hg : g' = g
    · have hbefore : pipePage s.file g = 1 := if_pos ⟨f, hf, w, hend⟩
      rw [hg, hbefore, h.page_closed hf hend]
      split_ifs
      · rw [count_cons_self]
      · rfl
    · have hpage : pipePage (upd s.file f { s.file f with ref := 0, type := .none }) g' =
          pipePage s.file g' := by
        unfold pipePage
        simp only [isEnd_closed_ne hend hg]
      rw [hpage]
      split_ifs
      · rw [count_cons_of_ne (Ne.symm hg)]
      · rfl

end Close

end Table

/-! ### The books -/

section Books

variable {α : Type} {P : Nat → Proc} {s s' : State} {O O' : Nat × Nat → Option Nat}
  {F F' : List Nat} {N c c' : Nat → Nat} {H H' L : List Nat} {f g p : Nat}

/-- References pass between the descriptors or current directories and the running call. -/
lemma Books.regroup (h : Books P O F N c H L s)
    (hO : ∀ f, slots O' f + F'.count f = slots O f + F.count f)
    (hc : ∀ k, c' k + H'.count k = c k + H.count k) : Books P O' F' N c' H' L s :=
  ⟨h.proc, h.table.regroup hO, h.inodes.regroup rfl fun k => by have := hc k; omega⟩

lemma Books.perm (h : Books P O F N c H L s) (hF : F.Perm F') : Books P O F' N c H L s :=
  h.regroup (fun f => by rw [hF.count_eq]) fun _ => rfl

/-- What works on the inode cache only. -/
lemma Books.lift (h : Books P O F N c H L s) {q : K α} {H' L' : α → List Nat}
    (hq : Acc s (fun k => inodeFiles s.file k + c k) H L q H' L') :
    q.wp (fun r s' => Books P O F N c (H' r) (L' r) s' ∧ s'.file = s.file) AnyStop s := by
  refine wp_mono (hq s h.inodes)
    (fun r s' h' => ⟨⟨h'.tables.proc.trans h.proc, h.table.same h'.tables.file
    h'.tables.pipe h'.tables.freelist, ?_⟩, h'.tables.file⟩) fun _ _ he => he
  rw [h'.tables.file]
  exact h'.regroup rfl fun _ => rfl

/-- Another free list, without pages of pipes, and other console input. -/
lemma Books.setFree (h : Books P O F N c H L s) {l : List Nat}
    (hl : ∀ g, l.count g + pipePage s.file g ≤ 1) (input : List Byte) :
    Books P O F (fun g => l.count g + pipePage s.file g) c H L
      { s with input := input, freelist := l } := by
  have ht := h.table
  exact ⟨h.proc, ⟨ht.ref, ht.lt, ht.closed, ht.ends, ht.unique, fun _ => rfl, hl⟩,
    h.inodes.regroup rfl fun _ => rfl⟩

/-- A change of a process. -/
lemma Books.setProc (h : Books P O F N c H L s) (u : Proc → Proc) :
    Books (upd P p (u (P p))) O F N c H L (s.setProc p u) := by
  refine ⟨?_, h.table.same rfl rfl rfl, h.inodes.regroup rfl fun _ => rfl⟩
  rw [← h.proc]
  rfl

lemma inodeFiles_setFile {u : File → File} (hf : f < NFILE) (k : Nat) :
    inodeFiles (s.setFile f u).file k + (s.file f).inode.toList.count k =
      inodeFiles s.file k + (u (s.file f)).inode.toList.count k := by
  have hsame : (s.setFile f u).file f = u (s.file f) := upd_same _ _ _
  rw [← hsame]
  refine occ_change_some (v := fun f => (s.file f).inode)
    (w := fun f' => ((s.setFile f u).file f').inode) (Finset.mem_range.mpr hf) fun j _ hj => ?_
  change (upd s.file f _ j).inode = _
  rw [upd_ne hj]

/-- A change of an entry that is not, and does not become, the end of a pipe. -/
lemma Books.setFile (h : Books P O F N c H L s) (F' H' : List Nat) {u : File → File}
    (hf : f < NFILE)
    (href : (u (s.file f)).ref = ((slots O f + F'.count f : Nat) : Int))
    (hF : ∀ f', f' ≠ f → F'.count f' = F.count f')
    (hclosed : (u (s.file f)).ref = 0 → (u (s.file f)).type = .none)
    (hend : ∀ g w, (u (s.file f)).IsEnd g w ↔ (s.file f).IsEnd g w)
    (hH : ∀ k, (u (s.file f)).inode.toList.count k + H'.count k =
      (s.file f).inode.toList.count k + H.count k) :
    Books P O F' N c H' L (s.setFile f u) := by
  refine ⟨h.proc, h.table.setFile F' hf href hF hclosed hend, h.inodes.regroup rfl fun k => ?_⟩
  have h1 := inodeFiles_setFile (s := s) (u := u) hf k
  have h2 := hH k
  omega

/-- The entry refers to no inode if it is not in use or has another type. -/
lemma File.inode_eq_none (fl : File) (h : fl.ref = 0 ∨ fl.type ≠ .inode) : fl.inode = none := by
  refine if_neg fun hc => ?_
  rcases h with h | h
  · omega
  · exact h hc.2

lemma File.inode_eq_some {fl : File} (h : 0 < fl.ref) (ht : fl.type = .inode) :
    fl.inode = some fl.ip := if_pos ⟨h, ht⟩

lemma File.not_isEnd {fl : File} {g : Nat} {w : Bool} (ht : fl.type ≠ .pipe) : ¬ fl.IsEnd g w :=
  fun he => ht he.1

/-! ### `file.c` and `pipe.c` -/

/-- A new entry has no type yet. -/
lemma books_filealloc (h : Books P O F N c H L s) :
    filealloc.wp (fun r s' => Books P O (r.toList ++ F) N c H L s' ∧
      ∀ f, r = some f → f < NFILE ∧ (s.file f).ref = 0 ∧ (s'.file f).type = .none ∧
        ∀ f', f' ≠ f → s'.file f' = s.file f') AnyStop s := by
  unfold filealloc
  rw [wp_act, if_pos rfl]
  cases hr : findFrom (fun f => decide ((s.file f).ref = 0)) 0 NFILE with
  | none => exact ⟨h, by simp⟩
  | some f =>
    have hf : f < NFILE := by simpa using (findFrom_some hr).2.1
    have h0 : (s.file f).ref = 0 := of_decide_eq_true (findFrom_some hr).2.2.1
    have htype : (s.file f).type = .none := h.table.closed f hf h0
    have htable := h.table.ref f hf
    have hset : Books P O (f :: F) N c H L (s.setFile f fun fl => { fl with ref := 1 }) := by
      refine h.setFile (f :: F) H hf ?_ (fun f' hf' => count_cons_of_ne (Ne.symm hf'))
        (fun h1 => absurd h1 (by simp)) (fun _ _ => Iff.rfl) fun k => ?_
      · rw [count_cons_self]
        change (1 : Int) = _
        omega
      · rw [File.inode_eq_none (s.file f) (.inl h0),
          File.inode_eq_none _ (.inr (by rw [htype]; decide))]
    refine ⟨hset, ?_⟩
    rintro f' he
    obtain rfl := Option.some.inj he
    refine ⟨hf, h0, ?_, fun f' hf' => upd_ne hf'⟩
    change (upd s.file f _ f).type = _
    rw [upd_same]
    exact htype

lemma books_filedup (h : Books P O F N c H L s) (hf : f < NFILE) :
    (filedup f).wp (fun _ s' => Books P O (f :: F) N c H L s') AnyStop s := by
  unfold filedup
  rw [wp_act, if_pos rfl]
  split_ifs with href
  · trivial
  have htable := h.table.ref f hf
  refine h.setFile (f :: F) H hf ?_ (fun f' hf' => count_cons_of_ne (Ne.symm hf'))
    (fun h0 => ?_) (fun _ _ => Iff.rfl) fun k => ?_
  · rw [count_cons_self]
    change (s.file f).ref + 1 = _
    omega
  · exact absurd (show (s.file f).ref + 1 = 0 from h0) (by omega)
  · have hinode : ({ s.file f with ref := (s.file f).ref + 1 } : File).inode = (s.file f).inode :=
      if_congr (and_congr_left fun _ => ⟨fun _ => by omega,
        fun _ => show 0 < (s.file f).ref + 1 by omega⟩) rfl rfl
    rw [hinode]

/-- `fileput` drops the entry with the last reference. -/
lemma run_fileput (h : 1 ≤ (s.file f).ref) :
    (fileput f).run s = if 1 < (s.file f).ref
      then .ok none (s.setFile f fun fl => { fl with ref := fl.ref - 1 })
      else .ok (some (s.file f)) (s.setFile f fun fl => { fl with ref := 0, type := .none }) := by
  have hpos : ¬ (s.file f).ref < 1 := by omega
  change (ite _ _ (ite _ _ _) : K (Option File)).run (ite _ _ _) = _
  rw [if_neg hpos, if_neg hpos]
  by_cases hlast : 1 < (s.file f).ref
  · have hleft : 0 < (s.file f).ref - 1 := by omega
    rw [if_pos hlast, if_pos hleft]
    simp only [State.setFile, if_pos hleft]
    rfl
  · have hleft : ¬ 0 < (s.file f).ref - 1 := by omega
    rw [if_neg hlast, if_neg hleft]
    simp only [State.setFile, if_neg hleft]
    rfl

/-- Closing `f` takes one reference off the books. -/
lemma books_fileclose (h : Books P O (f :: F) N c H L s) (hL : ∀ k ∈ L, k ∈ H) :
    (fileclose f).wp (fun _ s' => Books P O F N c H L s') AnyStop s := by
  have hf : f < NFILE := h.table.lt f (by rw [count_cons_self]; omega)
  have href := h.table.ref f hf
  rw [count_cons_self] at href
  have hF : ∀ f', f' ≠ f → F.count f' = (f :: F).count f' :=
    fun f' hf' => (count_cons_of_ne (Ne.symm hf')).symm
  have hput := run_fileput (s := s) (f := f) (by omega)
  by_cases hlast : 1 < (s.file f).ref
  · rw [if_pos hlast] at hput
    refine wp_bind.mpr (wp_of_run hput ?_)
    refine h.setFile F H hf ?_ hF (fun h0 => ?_) (fun _ _ => Iff.rfl) fun k => ?_
    · change (s.file f).ref - 1 = _
      omega
    · exact absurd (show (s.file f).ref - 1 = 0 from h0) (by omega)
    · have hinode : ({ s.file f with ref := (s.file f).ref - 1 } : File).inode = (s.file f).inode :=
        if_congr (and_congr_left fun _ => ⟨fun _ => by omega,
          fun _ => show 0 < (s.file f).ref - 1 by omega⟩) rfl rfl
      rw [hinode]
  rw [if_neg hlast] at hput
  refine wp_bind.mpr (wp_of_run hput ?_)
  have hone : (s.file f).ref = 1 := by omega
  have hzero : slots O f + F.count f = 0 := by omega
  -- the entry is dropped, and its reference to an inode passes to the call
  have hdrop : (s.file f).type ≠ .pipe → Books P O F N c ((s.file f).inode.toList ++ H) L
      (s.setFile f fun fl => { fl with ref := 0, type := .none }) := by
    intro ht
    refine h.setFile F _ hf ?_ hF (fun _ => rfl) (fun g w => ?_) fun k => ?_
    · rw [hzero]
      rfl
    · exact ⟨fun he => absurd he.1 (by simp), fun he => absurd he (File.not_isEnd ht)⟩
    · rw [File.inode_eq_none _ (.inl rfl), count_append]
      simp
  dsimp only
  by_cases hpipe : (s.file f).type = .pipe
  · rw [if_pos hpipe]
    have hinode : ∀ k, inodeFiles (s.setFile f fun fl =>
        { fl with ref := 0, type := .none }).file k =
        inodeFiles s.file k := fun k => by
      have hset := inodeFiles_setFile (s := s)
        (u := fun fl => { fl with ref := 0, type := .none }) hf k
      rw [File.inode_eq_none (s.file f) (.inr (by rw [hpipe]; decide)),
        File.inode_eq_none _ (.inl rfl)] at hset
      exact hset
    unfold pipeclose
    rw [wp_bind, wp_act, if_pos rfl, wp_ret]
    unfold K.when
    split_ifs with hboth
    · refine ⟨h.proc, h.table.closeEnd hone ⟨hpipe, rfl, rfl⟩ rfl rfl (if_pos hboth).symm,
        h.inodes.regroup rfl fun k => ?_⟩
      exact congrArg (· + c k + H.count k) (hinode k)
    · refine ⟨h.proc, h.table.closeEnd hone ⟨hpipe, rfl, rfl⟩ rfl rfl (if_neg hboth).symm,
        h.inodes.regroup rfl fun k => ?_⟩
      exact congrArg (· + c k + H.count k) (hinode k)
  rw [if_neg hpipe]
  have hbooks := hdrop hpipe
  unfold K.when
  split_ifs with hinode
  · rw [File.inode_eq_some (by omega) hinode] at hbooks
    change Books P O F N c ((s.file f).ip :: H) L _ at hbooks
    refine wp_call (hbooks.lift (acc_quiet quiet_beginTrans)) fun _ s1 h1 => ?_
    have hheld : (s.file f).ip ∈ L → 0 < inodeFiles s1.file (s.file f).ip + c (s.file f).ip +
        H.count (s.file f).ip := fun hmem => by
      have := count_pos_iff.mpr (hL _ hmem)
      omega
    refine wp_call (h1.1.lift (acc_iput hheld)) fun _ s2 h2 => ?_
    exact wp_mono (h2.1.lift (acc_quiet quiet_commitTrans)) (fun _ _ h3 => h3.1)
      fun _ _ he => he
  · rw [File.inode_eq_none _ (.inr hinode)] at hbooks
    exact hbooks

/-- The entry becomes one end of the pipe in page `g`. -/
def File.pipeEnd (g : Nat) (w : Bool) (fl : File) : File :=
  { fl with type := .pipe, readable := !w, writable := w, pipe := g }

lemma File.pipeEnd_inode {fl : File} {g : Nat} {w : Bool} : (fl.pipeEnd g w).inode = none :=
  File.inode_eq_none _ (.inr (by simp [File.pipeEnd]))

/-- `pipealloc` leaves two references, to the files that it returns, or none. -/
lemma books_pipealloc (h : Books P O F N c H L s) (hL : ∀ k ∈ L, k ∈ H) :
    pipealloc.wp (fun r s' => Books P O (r.elim F fun x => x.1 :: x.2 :: F) N c H L s')
      AnyStop s := by
  refine wp_call (books_filealloc h) fun r s1 h1 => ?_
  cases r with
  | none => exact h1.1
  | some f0 =>
  obtain ⟨hlt0, -, ht0, -⟩ := h1.2 f0 rfl
  refine wp_call (books_filealloc h1.1) fun r s2 h2 => ?_
  cases r with
  | none => exact wp_call (books_fileclose h2.1 hL) fun _ _ h3 => h3
  | some f1 =>
  obtain ⟨hlt1, hr1, ht1, hsame⟩ := h2.2 f1 rfl
  have hbooks : Books P O (f0 :: f1 :: F) N c H L s2 := h2.1.perm (List.Perm.swap f0 f1 F)
  have hpos : ∀ f ∈ f0 :: f1 :: F, f < NFILE → (s2.file f).ref ≠ 0 := fun f hmem hf => by
    have hcount := count_pos_iff.mpr hmem
    rw [hbooks.table.ref f hf]
    omega
  have hne : f0 ≠ f1 := by
    rintro rfl
    have hcount : 0 < (f0 :: F).count f0 := count_pos_iff.mpr mem_cons_self
    have href := h1.1.table.ref f0 hlt0
    rw [hr1] at href
    exact absurd href (by change _ ≠ ((slots O f0 + (f0 :: F).count f0 : Nat) : Int); omega)
  refine wp_bind.mpr (wp_act.mpr ?_)
  rw [if_pos rfl, wp_ret]
  cases hlist : s2.freelist with
  | nil =>
    have hnil : Books P O (f0 :: f1 :: F) N c H L { s2 with freelist := [] } :=
      ⟨hbooks.proc, hbooks.table.same rfl rfl hlist.symm, hbooks.inodes.regroup rfl fun _ => rfl⟩
    refine wp_call (books_fileclose hnil hL) fun _ s3 h3 => ?_
    exact wp_call (books_fileclose h3 hL) fun _ _ h4 => h4
  | cons g l =>
    have ht0 : (s2.file f0).type = .none := by
      rw [hsame f0 hne]
      exact ht0
    obtain ⟨file, hfile⟩ : ∃ file, file = upd (upd s2.file f0 ((s2.file f0).pipeEnd g false)) f1
        ((s2.file f1).pipeEnd g true) := ⟨_, rfl⟩
    have hstate : (fun s : State => s.setFile f1 (File.pipeEnd g true))
        ((({ s2 with freelist := l } : State).setPipe g fun _ =>
          { readopen := true, writeopen := true }).setFile f0 (File.pipeEnd g false)) =
        { s2 with
          freelist := l
          pipe := upd s2.pipe g { readopen := true, writeopen := true }
          file := file } := by
      rw [hfile]
      simp only [State.setFile, State.setPipe, upd_ne (Ne.symm hne)]
    have hfile0 : file f0 = (s2.file f0).pipeEnd g false := by
      rw [hfile, upd_ne hne, upd_same]
    have hfile1 : file f1 = (s2.file f1).pipeEnd g true := by
      rw [hfile, upd_same]
    have hold : ∀ f, f ≠ f0 → f ≠ f1 → file f = s2.file f := fun f hf0 hf1 => by
      rw [hfile, upd_ne hf1, upd_ne hf0]
    suffices hfinal : Books P O (f0 :: f1 :: F) N c H L { s2 with
        freelist := l
        pipe := upd s2.pipe g { readopen := true, writeopen := true }
        file := file } by
      rw [← hstate] at hfinal
      exact hfinal
    refine ⟨hbooks.proc, ?_, hbooks.inodes.regroup rfl fun k => ?_⟩
    · refine hbooks.table.newPipe hlt0 hlt1 hne ht0 ht1 (hpos f0 mem_cons_self hlt0)
        (hpos f1 (mem_cons_of_mem _ mem_cons_self) hlt1) hlist ?_ ?_ ?_ ?_ hold rfl rfl
      all_goals dsimp only
      · rw [hfile0]
        rfl
      · rw [hfile1]
        rfl
      · rw [hfile0]
        exact ⟨rfl, rfl, rfl⟩
      · rw [hfile1]
        exact ⟨rfl, rfl, rfl⟩
    · -- the new entries refer to no inode, before and after
      have hinode : inodeFiles file k = inodeFiles s2.file k := by
        refine occ_congr fun f _ => ?_
        by_cases hf0 : f = f0
        · rw [hf0, hfile0, File.pipeEnd_inode, File.inode_eq_none _ (.inr (by rw [ht0]; decide))]
        · by_cases hf1 : f = f1
          · rw [hf1, hfile1, File.pipeEnd_inode, File.inode_eq_none _ (.inr (by rw [ht1]; decide))]
          · rw [hold f hf0 hf1]
      exact congrArg (· + c k + H.count k) hinode

end Books

end Xv6
