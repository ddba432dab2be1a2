import Xv6.Vm.Exec

/-!
# Copying an address space

`copyuvm` gives the child a page of its own for each page of the parent, with the same contents. The
flags it does not copy: every page of the child may be read and written by user code. When a page is
refused, `setupkvm` forgets the directory and the tables it has, and `copyuvm` forgets the page for
which `mappages` found no page table.
-/

namespace Xv6.Vm

open Lib Prog

/-! ### What is asked for -/

/-- What `setupkvm` asks for. -/
def setupNeeds : List Need := .dir :: List.replicate 64 .table

/-- What `copyuvm` asks for, to copy `sz` bytes. -/
def copyNeeds (sz : Nat) : List Need := setupNeeds ++ needs (fun _ => false) 0 (pages sz)

/-- What `fork` asks for, when there is a process slot. -/
def forkNeeds (sz : Nat) : List Need := .stack :: copyNeeds sz

section Needs

variable {tab tab' : Nat → Bool} {v n k sz : Nat}

lemma needs_congr (h : ∀ j < 512, tab j = tab' j) (hn : v + n ≤ NUSER) :
    needs tab v n = needs tab' v n := by
  induction n generalizing v tab tab' with
  | zero => rfl
  | succ n ih =>
    have hv : v / 1024 < 512 := by
      simp only [NUSER] at hn
      omega
    have hupd : ∀ j < 512, upd tab (v / 1024) true j = upd tab' (v / 1024) true j := by
      intro j hj
      by_cases hjv : j = v / 1024
      · rw [hjv, upd_same, upd_same]
      · rw [upd_ne hjv, upd_ne hjv, h j hj]
    rw [needs, needs, h _ hv, ih hupd (by omega)]

@[simp] lemma length_setupNeeds : setupNeeds.length = 65 := rfl

lemma setupNeeds_table (h0 : 0 < k) (hk : k < 65) : setupNeeds[k]? = some .table := by
  obtain ⟨k, rfl⟩ := Nat.exists_eq_add_of_lt h0
  rw [Nat.zero_add, setupNeeds, List.getElem?_cons_succ, List.getElem?_replicate, if_pos (by omega)]

lemma copyNeeds_setup (hk : k < 65) : (copyNeeds sz)[k]? = setupNeeds[k]? :=
  List.getElem?_append_left hk

lemma copyNeeds_user : (copyNeeds sz)[k + 65]? = (needs (fun _ => false) 0 (pages sz))[k]? :=
  List.getElem?_append_right (Nat.le_add_left 65 k)

end Needs

/-! ### The loop -/

/-- How the loop of `copyuvm` over `n` pages ends, when the parent's pages have the contents `c`. -/
inductive CopyEnd (sy : Symbols) (T R : Nat → Nat) (c : Nat → Bytes) (d v n : Nat) (s : State) :
    Option Need → Bool → State → Prop
  | all {s' : State} (h : Space sy T R d s') (hp : Paged R c d v n s s')
      (hs : s'.failed = s.failed) : CopyEnd sy T R c d v n s none true s'
  | page {s' : State} (h : Space sy T R d s') (hf : Frame R s s') (hs : s'.failed = true) :
      CopyEnd sy T R c d v n s (some .page) false s'
  | table {s' : State} {g : Nat} (h : Space sy T (plus R g) d s') (hg : g ∈ s.fs.freelist)
      (hf : Frame R s s') (hs : s'.failed = true) : CopyEnd sy T R c d v n s (some .table) false s'

section Loop

variable {sy : Symbols} {T R : Nat → Nat} {c : Nat → Bytes} {s s' s'' : State} {d d' v n g sz : Nat}
  {o : Option Need} {r : Bool} {E : Option Panic → State → Prop}

lemma Added.copyEnd (ha : Added R (c v) d v g s s') (hv : v < NUSER) (hnone : s.pte d v = none)
    (he : CopyEnd sy T R c d (v + 1) n s' o r s'') : CopyEnd sy T R c d v (n + 1) s o r s'' := by
  cases he with
  | all h hp hs => exact .all h (ha.paged hv hnone hp) (hs.trans ha.failed)
  | page h hf hs => exact .page h (ha.frame.trans hf) hs
  | table h hg hf hs => exact .table h (ha.free hg) (ha.frame.trans hf) hs

/-- The parent's pages, which are among those that are not touched. If one is not there, the kernel
panics, which `E` has to allow. -/
structure Parent (R : Nat → Nat) (c : Nat → Bytes) (E : Option Panic → State → Prop) (d v n : Nat)
    (s : State) : Prop where
  rest : ∀ g, 0 < s.mass d g → 0 < R g
  leaf : ∀ w, v ≤ w → w < v + n → (s.leaf d w = none ∧ ∀ e t, E e t) ∨
    ∃ g, s.leaf d w = some g ∧ s.page g = c w

lemma Parent.keep {R' : Nat → Nat} (h : Parent R c E d v n s) (hR : ∀ g, 0 < R g → 0 < R' g)
    (hpage : ∀ g, 0 < R g → s'.page g = s.page g) (hbound : v + n ≤ NUSER) :
    Parent R' c E d v n s' := by
  obtain ⟨-, hpte, hmass⟩ := mass_of_pages (u := s') fun g hg => hpage g (h.rest g hg)
  refine ⟨fun g hg => hR g (h.rest g (by rwa [← hmass g])), fun w hw hw' => ?_⟩
  have hwu : w < NUSER := by omega
  rw [leaf_congr (hpte w (hwu.trans (by decide)))]
  refine (h.leaf w hw hw').imp_right fun ⟨g, hg, hc⟩ => ⟨g, hg, ?_⟩
  rw [hpage g (h.rest g (mass_leaf hwu hg)), hc]

lemma Parent.tail (h : Parent R c E d v (n + 1) s) : Parent R c E d (v + 1) n s :=
  ⟨h.rest, fun w hw hw' => h.leaf w (by omega) (by omega)⟩

/-- The copy stops at the first page that memory does not reach. -/
lemma wp_copyuvmLoop_exact {Q : Bool → State → Prop} {fuel : Nat} (hn : pages sz = v + n)
    (hfuel : n ≤ fuel) (hbound : v + n ≤ NUSER) (h : Space sy T R d' s)
    (hfresh : ∀ w, v ≤ w → w < v + n → s.pte d' w = none) (hp : Parent R c E d v n s)
    (hQ : ∀ r s', CopyEnd sy T R c d' v n s (needs (s.tables d') v n)[s.fs.freelist.length]? r s' →
      Q r s') :
    (copyuvmLoop d d' sz (PGSIZE * v) fuel).wp Q E s := by
  induction fuel generalizing v n s with
  | zero =>
    obtain rfl : n = 0 := by omega
    exact hQ true s (.all h (Paged.refl R c) rfl)
  | succ fuel ih =>
    rw [copyuvmLoop]
    cases n with
    | zero =>
      rw [if_neg fun hlt => by have := lt_pages.mpr hlt; omega]
      exact hQ true s (.all h (Paged.refl R c) rfl)
    | succ n =>
      have hv : v < NUSER := by omega
      have hvp : v < NPAGES := hv.trans (by decide)
      have hnone := hfresh v le_rfl (by omega)
      rw [if_pos (lt_pages.mp (by omega))]
      cases ht : s.table d (v / 1024) with
      | none =>
        -- the parent has no such page
        refine wp_bind.mpr (wp_of_run (run_walkpgdir_missing hvp ht) ?_)
        obtain ⟨-, hE⟩ | ⟨x, hx, -⟩ := hp.leaf v le_rfl (by omega)
        · exact hE _ _
        · rw [State.leaf, pte_of_no_table ht] at hx
          cases hx
      | some t =>
        refine wp_bind.mpr (wp_of_run (run_walkpgdir_found hvp ht false) ?_)
        have hleaf := hp.leaf v le_rfl (by omega)
        rw [State.leaf, pte_of_table ht, valid] at hleaf
        simp only [wp_read]
        cases hpres : present (s.word t (v % 1024)) with
        | false =>
          obtain ⟨-, hE⟩ | ⟨x, hx, -⟩ := hleaf
          · exact hE _ _
          · simp [hpres] at hx
        | true =>
        obtain ⟨hx, -⟩ | ⟨x, hx, hc⟩ := hleaf
        · simp [hpres] at hx
        rw [if_pos hpres, Option.map_some, Option.some.injEq] at hx
        rw [if_neg (by decide), hx]
        refine wp_bind.mpr (wp_kalloc_space h (fun g l hf h1 => ?_) fun hf => ?_)
        · obtain ⟨h2, hfr, htable, hpte, -⟩ := h.filled hf (c v)
          simp only [wp_write, State.setFree_page, hc]
          refine wp_bind.mpr (wp_mapUser h2 hv ((hpte v hvp).trans hnone)
            (fun s2 h3 hm hu hpage => ?_)
            fun ht' hf' => ?_)
          · have ha := hm.added h hf hu hpage
            rw [← Nat.mul_succ]
            refine ih (n := n) (by omega) (by omega) (by omega) h3 (fun w hw hw' => ?_)
              (hp.keep (fun _ => id) ha.frame.page hbound).tail fun r s' he => hQ r s' ?_
            · have hwp : w < NPAGES := by simp only [NUSER, NPAGES] at *; omega
              rw [ha.pte w hwp, if_neg (by omega)]
              exact hfresh w (by omega) (by omega)
            · rw [ha.needs ha.length]
              exact ha.copyEnd hv hnone he
          · rw [htable] at ht'
            obtain rfl : l = [] := hf'
            refine hQ false _ ?_
            rw [hf, needs]
            simp only [State.tables, ht', Option.isSome_none]
            exact .table (h2.congr rfl rfl) (by rw [hf]; exact List.mem_cons_self)
              (hfr.trans (frame_failed R _)) rfl
        · refine hQ false _ ?_
          rw [hf]
          exact .page (h.congr rfl rfl) (frame_failed R s) rfl

end Loop

/-! ### `copyuvm` -/

/-- A page that was free has been lost. -/
def Leaked (sy : Symbols) (T R : Nat → Nat) (s s' : State) : Prop :=
  ∃ P, (∀ x, R x ≤ P x) ∧ Own sy T P s' ∧ ∃ g ∈ s.fs.freelist, 0 < P g

/-- What a `copyuvm` that succeeds has done, when the parent's pages have the contents `c`. -/
structure Duplicate (sy : Symbols) (T R : Nat → Nat) (c : Nat → Bytes) (d sz : Nat) (s s' : State) :
    Prop where
  space : Space sy T R d s'
  frame : Frame R s s'
  new : ∀ v < pages sz, ∃ g ∈ s.fs.freelist, s'.pte d v = some (PGSIZE * g + 7) ∧ s'.page g = c v
  above : ∀ v < NUSER, pages sz ≤ v → s'.pte d v = none
  failed : s'.failed = s.failed

section Copy

variable {sy : Symbols} {T R : Nat → Nat} {c : Nat → Bytes} {s s' : State} {d d' sz : Nat}
  {Q : Option Nat → State → Prop} {E : Option Panic → State → Prop}

lemma leaked_space {P : Nat → Nat} {g : Nat} (hP : ∀ x, R x ≤ P x) (h : Space sy T P d s')
    (hg : g ∈ s.fs.freelist) (hpos : 0 < s'.mass d g + P g) : Leaked sy T R s s' :=
  ⟨_, fun x => (hP x).trans (Nat.le_add_left _ _), h, g, hg, hpos⟩

lemma Duplicate.exactly (h : Duplicate sy T R c d sz s s') : Exactly s' d sz := by
  intro v hv
  rw [← lt_pages]
  by_cases hlt : v < pages sz
  · obtain ⟨g, -, hpte, -⟩ := h.new v hlt
    exact iff_of_true (by simp [hpte]) hlt
  · exact iff_of_false (fun hne => hne (h.above v hv (by omega))) hlt

/-- How `copyuvm` ends is a matter of the number of free pages. -/
lemma wp_copyuvm_exact (h : Own sy T R s) (hsz : sz ≤ KERNBASE) (hp : Parent R c E d 0 (pages sz) s)
    (hok : ∀ d' s', (copyNeeds sz)[s.fs.freelist.length]? = none → Duplicate sy T R c d' sz s s' →
      Q (some d') s')
    (hclean : ∀ o s', (copyNeeds sz)[s.fs.freelist.length]? = some o → o ≠ .table → Own sy T R s' →
      Frame R s s' → s'.failed = true → Q none s')
    (hleak : ∀ s', (copyNeeds sz)[s.fs.freelist.length]? = some .table → Leaked sy T R s s' →
      Frame R s s' → s'.failed = true → Q none s') :
    (copyuvm sy d sz).wp Q E s := by
  have hbound := pages_le hsz
  rw [copyuvm]
  refine wp_bind.mpr (wp_setupkvm_exact h (fun d' s1 h1 hf hnone _ _ htab hs1 hlen => ?_)
    (fun hf => ?_)
    fun d' s1 hd h1 hf hs1 hlen => ?_)
  · have hneeds : (needs (s1.tables d') 0 (pages sz))[s1.fs.freelist.length]? =
        (copyNeeds sz)[s.fs.freelist.length]? := by
      rw [← hlen, copyNeeds_user, needs_congr (fun j hj => ?_) (by omega)]
      unfold State.tables
      rw [(htab j (by simp only [NPDENTRIES]; omega)).mpr (by simp only [KernelTable]; omega)]
      rfl
    have hown : ∀ x, R x ≤ s1.mass d' x + R x := fun x => Nat.le_add_left _ _
    refine wp_bind.mpr (wp_copyuvmLoop_exact (n := pages sz) (v := 0)
      (Nat.zero_add _).symm ?_ (by omega) h1
      (fun w _ hw => hnone w (by omega)) (hp.keep (fun _ => id) hf.page (by omega))
        fun r s2 he => ?_)
    · simp only [pages, PGSIZE]
      omega
    rw [hneeds] at he
    generalize ho : (copyNeeds sz)[s.fs.freelist.length]? = o at he
    cases he with
    | all h2 hpg hs2 =>
      refine hok d' s2 ho ⟨h2, hf.trans hpg.frame, fun v hv => ?_, fun v hv hle => ?_,
        hs2.trans hs1⟩
      · obtain ⟨g, hg, hnew⟩ := hpg.new v (Nat.zero_le v) (by omega)
        exact ⟨g, h.mem_of_mem h1 hown hg, hnew⟩
      · rw [hpg.old v (hv.trans (by decide)) (by omega)]
        exact hnone v hv
    | page h2 hf2 hs2 =>
      refine wp_bind.mpr (wp_freevm h2 fun s3 h3 hf3 hs3 => ?_)
      exact hclean _ s3 ho (by simp) h3 ((hf.trans hf2).trans hf3) (hs3.trans hs2)
    | table h2 hg hf2 hs2 =>
      rename_i g
      refine wp_bind.mpr (wp_freevm h2 fun s3 h3 hf3 hs3 => ?_)
      refine hleak s3 ho ⟨_, le_plus R g, h3, g, h.mem_of_mem h1 hown hg, by
        rw [plus_same]; omega⟩ ?_
        (hs3.trans hs2)
      exact (hf.trans hf2).trans (hf3.mono fun x hx => hx.trans_le (le_plus R g x))
  · refine hclean .dir _ ?_ (by simp) (Own.congr h (fun _ => rfl) rfl) (frame_failed R s) rfl
    rw [hf]
    rfl
  · have hpos := List.length_pos_of_mem hd
    refine hleak s1 ?_ (leaked_space (fun _ => le_rfl) h1 hd ?_) hf hs1
    · rw [copyNeeds_setup hlen, setupNeeds_table hpos hlen]
    · have := mass_dir s1 d'
      omega

/-- The pages of the parent, as a `copyuvm` of it finds them. -/
lemma parent_self {n : Nat} (hR : ∀ g, 0 < s.mass d g → 0 < R g)
    (hE : ∀ v < n, s.pte d v = none → ∀ e t, E e t) :
    Parent R (fun v => s.page ((s.leaf d v).getD 0)) E d 0 n s := by
  refine ⟨hR, fun w _ hw => ?_⟩
  cases hpte : s.pte d w with
  | none => exact .inl ⟨by rw [State.leaf, hpte, Option.map_none], hE w (by omega) hpte⟩
  | some e =>
    have hleaf : s.leaf d w = some (frame e) := by rw [State.leaf, hpte, Option.map_some]
    exact .inr ⟨frame e, hleaf, by rw [hleaf, Option.getD_some]⟩

lemma parent_of_present (hpres : ∀ v < pages sz, s.pte d v ≠ none) :
    Parent (fun g => s.mass d g + R g) (fun v => s.page ((s.leaf d v).getD 0)) E d 0 (pages sz) s :=
  parent_self (fun g hg => by omega) fun v hv hnone => absurd hnone (hpres v hv)

end Copy

/-! ### `fork` -/

/-- `s'` is `s` after `allocproc` has given process `np` the kernel stack `g`. -/
structure Alloced (np g : Nat) (l : List Nat) (s s' : State) : Prop where
  lt : np < NPROC
  unused : (s.pcb np).state = .unused
  first : ∀ q < np, (s.pcb q).state ≠ .unused
  free : s.fs.freelist = g :: l
  fs : s'.fs = { s.fs with freelist := l }
  page : s'.page = s.page
  pcb : s'.pcb = upd s.pcb np { s.pcb np with state := .embryo, kstack := g }
  failed : s'.failed = s.failed
  wrapped : s'.wrapped = s.wrapped

/-- `s'` is `s` after `allocproc` has found a slot but no page for a kernel stack. -/
structure Unalloced (s s' : State) : Prop where
  slot : ∃ q < NPROC, (s.pcb q).state = .unused
  free : s.fs.freelist = []
  fs : s'.fs = s.fs
  state : ∀ q, (s'.pcb q).state = (s.pcb q).state
  failed : s'.failed = true

/-- `s'` is what `fork` leaves when it cannot get `o`. -/
structure Unforked (sy : Symbols) (T R : Nat → Nat) (o : Need) (s s' : State) : Prop where
  pages : if o = .table then Leaked sy T R s s' else Own sy T R s'
  state : ∀ q, (s'.pcb q).state = (s.pcb q).state
  failed : s'.failed = true

section Fork

variable {sy : Symbols} {T R P : Nat → Nat} {c : Nat → Bytes} {s s' : State} {p np g : Nat}
  {E : Option Panic → State → Prop}

lemma wp_allocproc {Q : Option Nat → State → Prop} (h : Own sy T R s)
    (hnone : (∀ q < NPROC, (s.pcb q).state ≠ .unused) → Q none s)
    (hok : ∀ np g l s', Alloced np g l s s' → Own sy T (plus R g) s' → Q (some np) s')
    (hfail : ∀ s', Unalloced s s' → Q none s') : allocproc.wp Q E s := by
  rw [allocproc]
  refine wp_bind.mpr (wp_act.mpr ?_)
  rw [if_pos rfl]
  simp only [wp_ret]
  cases hfind : findFrom (fun p => decide ((s.pcb p).state = .unused)) 0 NPROC with
  | none =>
    refine hnone fun q hq => ?_
    have := findFrom_none hfind q (Nat.zero_le q) (by omega)
    exact of_decide_eq_false this
  | some np =>
    obtain ⟨-, hlt, hunused, hfirst⟩ := findFrom_some hfind
    rw [Nat.zero_add] at hlt
    obtain ⟨s1, hs1⟩ : ∃ s1, s1 = s.setPcb np fun c => { c with state := .embryo } := ⟨_, rfl⟩
    have h₁ : Own sy T R s1 := Own.congr h (fun _ => rfl) (by rw [hs1]; rfl)
    dsimp only
    rw [← hs1]
    refine wp_bind.mpr (wp_kalloc h₁ (fun g l hf h₂ _ _ => ?_) fun hf => ?_)
    · rw [hs1] at hf h₂
      refine hok np g l _ ⟨hlt, of_decide_eq_true hunused, fun q hq => ?_, hf, ?_, ?_, ?_, ?_, ?_⟩
        (Own.congr h₂ (fun _ => rfl) rfl)
      · exact of_decide_eq_false (hfirst q (Nat.zero_le q) hq)
      · rw [hs1]
        rfl
      · rw [hs1]
        rfl
      · rw [hs1]
        simp [State.setPcb]
      · rw [hs1]
        rfl
      · rw [hs1]
        rfl
    · rw [hs1] at hf ⊢
      refine hfail _ ⟨⟨np, hlt, of_decide_eq_true hunused⟩, hf, rfl, fun q => ?_, rfl⟩
      by_cases hq : q = np
      · rw [hq, of_decide_eq_true hunused]
        simp [State.setPcb]
      · simp [State.setPcb, upd_ne hq]

/-- `fork` frees the kernel stack after a `copyuvm` that has failed. -/
lemma Own.kfree_stack (h : Own sy T P s) (hP : ∀ x, plus R g x ≤ P x) :
    ∃ P', (∀ x, R x ≤ P' x) ∧ (∀ x, x ≠ g → P' x = P x) ∧ Own sy T (plus P' g) s := by
  refine ⟨fun x => P x - [g].count x, fun x => ?_, fun x hx => ?_, Own.congr h (fun x => ?_) rfl⟩
  · have := hP x
    unfold plus at this
    change R x ≤ P x - [g].count x
    omega
  · simp [Ne.symm hx]
  · have := hP x
    unfold plus at this
    change P x - [g].count x + [g].count x = P x
    omega

/-- What `fork` does when `copyuvm` has failed. -/
lemma wp_fork_undo {Q : Int → State → Prop} (h : Own sy T (plus P g) s)
    (hg : (s.pcb np).kstack = g)
    (hQ : ∀ s', Own sy T P s' →
    (∀ q, (s'.pcb q).state = if q = np then .unused else (s.pcb q).state) →
      s'.failed = s.failed → Q (-1) s') :
    (do let kstack ← read fun s => (s.pcb np).kstack
        kfree sy kstack
        write fun s => s.setPcb np fun c => { c with pgdir := 0, kstack := 0, state := .unused }
        pure (-1) : V Int).wp Q E s := by
  rw [wp_read, hg]
  refine wp_bind.mpr (wp_kfree h fun h' => ?_)
  rw [wp_write]
  refine hQ _ (Own.congr h' (fun _ => rfl) rfl) (fun q => ?_) rfl
  by_cases hq : q = np
  · rw [if_pos hq, hq]
    simp [State.setPcb]
  · rw [if_neg hq]
    simp [State.setPcb, upd_ne hq, State.freed]

/-- `fork` fails when it cannot get a page. Otherwise the child has a stack and a copy of the
parent's pages when it gets its files. -/
lemma wp_fork {Q : Int → State → Prop} (h : Own sy T R s) (hlive : (s.pcb p).state ≠ .unused)
    (hsz : (s.fs.proc p).sz ≤ KERNBASE)
    (hp : Parent R c E (s.pcb p).pgdir 0 (pages (s.fs.proc p).sz) s)
    (hfull : (∀ q < NPROC, (s.pcb q).state ≠ .unused) → Q (-1) s)
    (hok : ∀ np g l s1 d s2, Alloced np g l s s1 → (copyNeeds (s.fs.proc p).sz)[l.length]? = none →
      Duplicate sy T (plus R g) c d (s.fs.proc p).sz s1 s2 →
      (do let pid ← onFs (Xv6.fork p (some np))
          write fun s => s.setPcb np fun c => { c with state := .live }
          pure pid : V Int).wp Q E
        (s2.setPcb np fun c => { c with pgdir := d, parent := some p, esp := (s2.pcb p).esp }))
    (hfail : ∀ o s', (∃ q < NPROC, (s.pcb q).state = .unused) →
      (forkNeeds (s.fs.proc p).sz)[s.fs.freelist.length]? = some o → Unforked sy T R o s s' →
      Q (-1) s') : (fork sy p).wp Q E s := by
  rw [fork]
  refine wp_bind.mpr (wp_allocproc h hfull (fun np g l s1 ha h1 => ?_) fun s1 hu => ?_)
  · have hne : p ≠ np := by
      rintro rfl
      exact hlive ha.unused
    have hpcb : s1.pcb p = s.pcb p := by rw [ha.pcb, upd_ne hne]
    have hslot : ∃ q < NPROC, (s.pcb q).state = .unused := ⟨np, ha.lt, ha.unused⟩
    have hneeds : ∀ o, (copyNeeds (s.fs.proc p).sz)[s1.fs.freelist.length]? = o →
        (forkNeeds (s.fs.proc p).sz)[s.fs.freelist.length]? = o := by
      rw [ha.free, ha.fs]
      exact fun o ho => ho
    -- `copyuvm` has failed, and the slot is given back
    have hundo : ∀ s2 s3 : State, s2.pcb = s1.pcb →
        (∀ q, (s3.pcb q).state = if q = np then .unused else (s2.pcb q).state) →
        ∀ q, (s3.pcb q).state = (s.pcb q).state := by
      intro s2 s3 h2 h3 q
      rw [h3 q, h2, ha.pcb]
      split_ifs with hq
      · rw [hq, ha.unused]
      · rw [upd_ne hq]
    have hkstack : ∀ s2 : State, s2.pcb = s1.pcb → (s2.pcb np).kstack = g := fun s2 h2 => by
      rw [h2, ha.pcb, upd_same]
    rw [wp_read, wp_read, hpcb, ha.fs]
    refine wp_bind.mpr (wp_copyuvm_exact h1 hsz (hp.keep (fun x hx => hx.trans_le (le_plus R g x))
      (fun x _ => by rw [ha.page]) (by have := pages_le hsz; omega)) (fun d s2 hnone hd => ?_)
      (fun o s2 ho hne h2 hf hs => ?_) fun s2 ho hl hf hs => ?_)
    · rw [wp_write]
      refine hok np g l s1 d s2 ha ?_ hd
      rwa [ha.fs] at hnone
    · refine wp_fork_undo h2 (hkstack s2 hf.pcb) fun s3 h3 hst hs3 =>
        hfail o s3 hslot (hneeds _ ho) ⟨?_, hundo s2 s3 hf.pcb hst, hs3.trans hs⟩
      rwa [if_neg hne]
    · obtain ⟨P, hP, hown, x, hx, hpos⟩ := hl
      obtain ⟨P', hP', hsame, hown'⟩ := hown.kfree_stack hP
      have hxg : x ≠ g := by
        rintro rfl
        have := h1.not_free hx
        rw [plus_same] at this
        omega
      refine wp_fork_undo hown' (hkstack s2 hf.pcb) fun s3 h3 hst hs3 =>
        hfail .table s3 hslot (hneeds _ ho) ⟨?_, hundo s2 s3 hf.pcb hst, hs3.trans hs⟩
      rw [if_pos rfl]
      refine ⟨P', hP', h3, x, ?_, by rwa [hsame x hxg]⟩
      rw [ha.fs] at hx
      rw [ha.free]
      exact List.mem_cons_of_mem g hx
  · refine hfail .stack s1 hu.slot (by rw [hu.free]; rfl) ⟨?_, hu.state, hu.failed⟩
    rw [if_neg (by simp)]
    exact Own.congr h (fun _ => rfl) (by rw [hu.fs])

end Fork

/-! ### A faithful copy -/

/-- The flags that say who may use a page. -/
def PERM : Nat := PTE_P ||| PTE_W ||| PTE_U

/-- In `s'` the address space `d'` is a copy of the `sz` bytes that `d` has in `s`: the pages have
the same contents and permissions and are different pages, there are no others, and `d` itself and
its pages have not changed. -/
structure Copied (d d' sz : Nat) (s s' : State) : Prop where
  page : ∀ v, PGSIZE * v < sz → ∃ e e', s.pte d v = some e ∧ s'.pte d' v = some e' ∧
    frame e' ≠ frame e ∧ s'.page (frame e') = s.page (frame e) ∧ e' &&& PERM = e &&& PERM
  above : ∀ v < NUSER, PGROUNDUP sz ≤ PGSIZE * v → s'.pte d' v = none
  parent : ∀ v < NPAGES, s'.pte d v = s.pte d v
  memory : SameUser d s s'

section Faithful

variable {sy : Symbols} {T R : Nat → Nat} {s s' : State} {d d' v g e f sz : Nat} {l : List Nat}

lemma and_perm (e : Nat) : e &&& PERM = e % 8 := Nat.and_two_pow_sub_one_eq_mod e 3

lemma copyuvm_duplicate (h : Space sy T R d s) (hsz : sz ≤ KERNBASE)
    (hpres : ∀ v < pages sz, s.pte d v ≠ none) (hrun : (copyuvm sy d sz).run s = .ok (some d') s') :
    Duplicate sy T (fun g => s.mass d g + R g)
      (fun v => s.page ((s.leaf d v).getD 0)) d' sz s s' := by
  refine wp_ok (wp_copyuvm_exact (E := fun _ _ => True) (Q := fun r s' => ∀ d', r = some d' →
    Duplicate sy T (fun g => s.mass d g + R g) (fun v => s.page ((s.leaf d v).getD 0)) d' sz s s')
    h hsz (parent_of_present hpres) (fun d1 s1 _ hdup d2 heq => ?_)
    (fun _ _ _ _ _ _ _ d2 heq => absurd heq (by simp)) fun _ _ _ _ _ d2 heq => absurd heq (by simp))
    hrun d' rfl
  obtain rfl := Option.some.inj heq
  exact hdup

/-- With enough memory `copyuvm` succeeds. -/
lemma copyuvm_succeeds (h : Space sy T R d s) (hsz : sz ≤ KERNBASE)
    (hpres : ∀ v < pages sz, s.pte d v ≠ none)
    (hfree : (copyNeeds sz)[s.fs.freelist.length]? = none) :
    ∃ d' s', (copyuvm sy d sz).run s = .ok (some d') s' := by
  obtain ⟨r, s', hrun, hr⟩ := wp_total (wp_copyuvm_exact (Q := fun r _ => ∃ d', r = some d') h hsz
    (parent_of_present hpres) (fun d' _ _ _ => ⟨d', rfl⟩)
    (fun o _ ho _ _ _ _ => absurd (hfree.symm.trans ho) (by simp))
    fun _ ho _ _ _ => absurd (hfree.symm.trans ho) (by simp))
  obtain ⟨d', rfl⟩ := hr
  exact ⟨d', s', hrun⟩

/-- A copy is faithful exactly if user code may read and write all pages of the parent: the copy
allows it for every page. -/
theorem copyuvm_copied_iff (h : Space sy T R d s) (hsz : sz ≤ KERNBASE)
    (hpres : ∀ v < pages sz, s.pte d v ≠ none) (hrun : (copyuvm sy d sz).run s = .ok (some d') s') :
    Copied d d' sz s s' ↔ ∀ v e, PGSIZE * v < sz → s.pte d v = some e → e &&& PERM = PERM := by
  have hbound := pages_le hsz
  have hdup := copyuvm_duplicate h hsz hpres hrun
  have hperm : ∀ g, (PGSIZE * g + 7) &&& PERM = PERM := fun g => by
    rw [and_perm, show PERM = 7 from rfl]
    simp only [PGSIZE]
    omega
  constructor
  · intro hc v e hv he
    obtain ⟨g, -, hpte, -⟩ := hdup.new v (lt_pages.mpr hv)
    obtain ⟨e1, e', he1, he', -, -, hsame⟩ := hc.page v hv
    rw [he] at he1
    rw [hpte] at he'
    obtain rfl := Option.some.inj he1
    obtain rfl := Option.some.inj he'
    rw [← hsame, hperm]
  · intro hall
    have hsame : ∀ g, 0 < s.mass d g → s'.page g = s.page g := fun g hg =>
      hdup.frame.page g (hg.trans_le (Nat.le_add_right _ _))
    refine ⟨fun v hv => ?_, fun v hv hge => hdup.above v hv ?_, (mass_of_pages hsame).2.1,
      fun v hv g hg => hsame g (mass_leaf hv hg)⟩
    · have hvp := lt_pages.mpr hv
      obtain ⟨g, hg, hpte, hpage⟩ := hdup.new v hvp
      obtain ⟨e, he⟩ := Option.ne_none_iff_exists'.mp (hpres v hvp)
      have hleaf : s.leaf d v = some (frame e) := by rw [State.leaf, he, Option.map_some]
      refine ⟨e, PGSIZE * g + 7, he, hpte, ?_, ?_, ?_⟩
      · rw [frame_add g (by decide)]
        rintro rfl
        have h1 := Own.not_free h hg
        have h2 := mass_leaf (by omega) hleaf
        omega
      · rw [frame_add g (by decide), hpage, hleaf, Option.getD_some]
      · rw [hperm, hall v e hv he]
    · rw [PGROUNDUP_eq hsz] at hge
      exact Nat.le_of_mul_le_mul_left hge (by decide)

/-- Free pages for a small process. -/
def spare : List Nat := List.range' 1000 70

lemma space_spare (hf : f < PGSIZE) (hodd : f % 2 = 1) :
    Space twoPages ((spare ++ [300, 301, 302]).count ·) (fun _ => 0) 300 (onePageAt 0 f spare) :=
  space_onePageAt (by decide) hf hodd (by decide) (by decide)

lemma present_spare (hf : f < PGSIZE) (hodd : f % 2 = 1) :
    ∀ v < pages PGSIZE, (onePageAt 0 f spare).pte 300 v ≠ none := by
  intro v hv
  have h0 : v = 0 := Nat.lt_one_iff.mp hv
  rw [pte_onePageAt hf hodd, if_pos (by omega)]
  simp

/-- The page of the parent is a guard page, which user code may not use. In the child it may. -/
theorem copyuvm_opens_guard :
    Space twoPages ((spare ++ [300, 301, 302]).count ·)
      (fun _ => 0) 300 (onePageAt 0 (PTE_P ||| PTE_W) spare) ∧
      ∃ d' s', (copyuvm twoPages 300 PGSIZE).run (onePageAt 0 (PTE_P ||| PTE_W) spare) = .ok
        (some d') s' ∧
        ¬ Copied 300 d' PGSIZE (onePageAt 0 (PTE_P ||| PTE_W) spare) s' := by
  have h := space_spare (f := PTE_P ||| PTE_W) (by decide) (by decide)
  have hpres := present_spare (f := PTE_P ||| PTE_W) (by decide) (by decide)
  obtain ⟨d', s', hrun⟩ := copyuvm_succeeds h (by decide) hpres (by decide)
  refine ⟨h, d', s', hrun, fun hc => ?_⟩
  obtain ⟨g, -, hpte, -⟩ := (copyuvm_duplicate h (by decide) hpres hrun).new 0 (by decide)
  obtain ⟨e, e', he, he', -, -, hsame⟩ := hc.page 0 (by decide)
  rw [pte_onePageAt (by decide) (by decide), if_pos rfl] at he
  rw [hpte] at he'
  obtain rfl := Option.some.inj he
  obtain rfl := Option.some.inj he'
  have hflags : (PGSIZE * 302 + (PTE_P ||| PTE_W)) % 8 = 3 := rfl
  rw [and_perm, and_perm, hflags] at hsame
  simp only [PGSIZE] at hsame
  omega

/-- The page of a process that has only memory it may write is copied faithfully. -/
theorem copyuvm_copied_page :
    ∃ d' s', (copyuvm twoPages 300 PGSIZE).run (onePageAt 0 7 spare) = .ok (some d') s' ∧
      Copied 300 d' PGSIZE (onePageAt 0 7 spare) s' := by
  have h := space_spare (f := 7) (by decide) (by decide)
  have hpres := present_spare (f := 7) (by decide) (by decide)
  obtain ⟨d', s', hrun⟩ := copyuvm_succeeds h (by decide) hpres (by decide)
  refine ⟨d', s', hrun, (copyuvm_copied_iff h (by decide) hpres hrun).mpr fun v e hv he => ?_⟩
  have h0 : v = 0 := Nat.lt_one_iff.mp (lt_pages.mpr hv)
  rw [h0, pte_onePageAt (by decide) (by decide), if_pos rfl] at he
  rw [← Option.some.inj he, and_perm]
  rfl

end Faithful

/-! ### A copy that fails -/

/-- The same pages are free. -/
def SameFree (s s' : State) : Prop := ∀ g, g ∈ s'.fs.freelist ↔ g ∈ s.fs.freelist

/-- A `setupkvm` that returns 0 loses no page. -/
def SetupClean (sy : Symbols) (s : State) : Prop :=
  ∀ s', (setupkvm sy).run s = .ok none s' → SameFree s s'

/-- A `copyuvm(d, sz)` that returns 0 loses no page. -/
def CopyClean (sy : Symbols) (d sz : Nat) (s : State) : Prop :=
  ∀ s', (copyuvm sy d sz).run s = .ok none s' → SameFree s s'

/-- A `fork` of process `p` that returns -1 loses no page, and the slots that were free are free. -/
def ForkClean (sy : Symbols) (p : Nat) (s : State) : Prop :=
  ∀ s', (fork sy p).run s = .ok (-1) s' → SameFree s s' ∧ ∀ q, (s'.pcb q).state = (s.pcb q).state

section Failure

variable {sy : Symbols} {T R P : Nat → Nat} {s s' : State} {d p g sz : Nat} {o : Option Need}
  {E : Option Panic → State → Prop}

lemma Own.sameFree (h : Own sy T R s) (h' : Own sy T R s') : SameFree s s' := by
  intro g
  have h1 := h.count g
  have h2 := h'.count g
  rw [← List.count_pos_iff, ← List.count_pos_iff]
  omega

lemma Leaked.not_sameFree (h : Leaked sy T R s s') : ¬ SameFree s s' := by
  obtain ⟨P, -, hown, g, hg, hpos⟩ := h
  intro hsame
  have := hown.not_free ((hsame g).mpr hg)
  omega

/-- How a call ends that lacks `o`: it fails if anything is lacking, and then pages are lost exactly
if it was a page table. -/
structure Ends (fails : Prop) (o : Option Need) (s s' : State) : Prop where
  lacks : fails ↔ o ≠ none
  free : fails → (SameFree s s' ↔ o ≠ some .table)

lemma Ends.of_leaked {fails : Prop} (hf : fails) (ho : o = some .table) (h : Leaked sy T R s s') :
    Ends fails o s s' := by
  rw [ho]
  exact ⟨iff_of_true hf (by simp), fun _ => iff_of_false h.not_sameFree (by simp)⟩

lemma Ends.of_sameFree {fails : Prop} {n : Need} (hf : fails) (ho : o = some n) (hn : n ≠ .table)
    (h : SameFree s s') : Ends fails o s s' := by
  rw [ho]
  exact ⟨iff_of_true hf (by simp), fun _ => iff_of_true h (by simpa using hn)⟩

lemma Ends.of_ok {fails : Prop} (hf : ¬ fails) (ho : o = none) : Ends fails o s s' :=
  ⟨iff_of_false hf (by simp [ho]), fun h => absurd h hf⟩

lemma wp_setupkvm_ends (h : Own sy T R s) : (setupkvm sy).wp
    (fun r s' => Ends (r = none) setupNeeds[s.fs.freelist.length]? s s') E s := by
  refine wp_setupkvm_exact h (fun d s' _ _ _ _ _ _ _ hlen => .of_ok (by simp) ?_) (fun hf => ?_)
    fun d s' hd h' _ _ hlen => .of_leaked rfl ?_ (leaked_space (fun _ => le_rfl) h' hd ?_)
  · refine List.getElem?_eq_none ?_
    rw [length_setupNeeds]
    omega
  · refine .of_sameFree (n := .dir) rfl ?_ (by simp)
      (Own.sameFree h (Own.congr h (fun _ => rfl) rfl))
    rw [hf]
    rfl
  · exact setupNeeds_table (List.length_pos_of_mem hd) hlen
  · have := mass_dir s' d
    omega

lemma wp_copyuvm_ends (h : Space sy T R d s) (hsz : sz ≤ KERNBASE)
    (hpres : ∀ v < pages sz, s.pte d v ≠ none) : (copyuvm sy d sz).wp
    (fun r s' => Ends (r = none) (copyNeeds sz)[s.fs.freelist.length]? s s') E s :=
  wp_copyuvm_exact h hsz (parent_of_present hpres) (fun d' s' ho _ => .of_ok (by simp) ho)
    (fun _ s' ho hne h' _ _ => .of_sameFree rfl ho hne (Own.sameFree h h'))
    fun s' ho hl _ _ => .of_leaked rfl ho hl

/-- The child of `fork` is the process it was given. -/
lemma wp_fork_child (p np : Nat) (s : Xv6.State) :
    (Xv6.fork p (some np)).wp (fun r _ => r = np) AnyStop s := by
  refine wp_skip fun sz s1 => wp_skip fun _ s2 => wp_skip fun _ s3 => wp_skip fun cwd s4 => ?_
  cases cwd with
  | none => trivial
  | some cwd => exact wp_skip fun k s5 => wp_skip fun _ s6 => rfl

/-- Process `np`, the first unused one, has become a child of `p`. -/
structure Forked (p np : Nat) (s s' : State) : Prop where
  unused : (s.pcb np).state = .unused
  first : ∀ q < np, (s.pcb q).state ≠ .unused
  live : (s'.pcb np).state = .live
  other : ∀ q, q ≠ np → s'.pcb q = s.pcb q
  user : ∀ v < pages (s.fs.proc p).sz, ∃ g, s'.user (s'.pcb np).pgdir v = some g
  failed : s'.failed = s.failed
  wrapped : s'.wrapped = s.wrapped

/-- How `fork` ends is a matter of the number of free pages, if there is a slot. -/
lemma wp_fork_ends (h : Space sy T R (s.pcb p).pgdir s) (hlive : (s.pcb p).state ≠ .unused)
    (hsz : (s.fs.proc p).sz ≤ KERNBASE)
    (hpres : ∀ v < pages (s.fs.proc p).sz, s.pte (s.pcb p).pgdir v ≠ none)
    (ho : o = if ∃ q < NPROC, (s.pcb q).state = .unused then
      (forkNeeds (s.fs.proc p).sz)[s.fs.freelist.length]? else some .stack)
    (hE : ∀ np s', (s.pcb np).state = .unused → (∀ q < np, (s.pcb q).state ≠ .unused) →
      s'.fs = { s.fs with freelist := s'.fs.freelist } → o = none → (onFs (Xv6.fork p (some np))).wp
        (fun r s'' => ∃ fs, s'' = { s' with fs := fs } ∧ r = np) E s') :
    (fork sy p).wp (fun r s' => Ends (r = -1) o s s' ∧
      (r = -1 → ∀ q, (s'.pcb q).state = (s.pcb q).state) ∧
      (o = none → ∃ np, Forked p np s s')) E s := by
  refine wp_fork h hlive hsz (parent_of_present hpres) (fun hall => ?_)
    (fun np g l s1 d s2 ha hneed hd => ?_) fun n s' hslot hn hu => ?_
  · have hnone : o = some .stack := by
      rw [ho, if_neg]
      rintro ⟨q, hq, hun⟩
      exact hall q hq hun
    exact ⟨.of_sameFree rfl hnone (by simp) fun _ => Iff.rfl, fun _ _ => rfl, by simp [hnone]⟩
  · have hnone : o = none := by
      rw [ho, if_pos ⟨np, ha.lt, ha.unused⟩, ha.free]
      exact hneed
    have hf := hd.frame
    refine wp_call (hE np _ ha.unused ha.first ?_ hnone) ?_
    · change s2.fs = _
      rw [hf.fs, ha.fs]
      rfl
    rintro r s3 ⟨fs, rfl, rfl⟩
    rw [wp_write]
    refine ⟨.of_ok (by omega) hnone, fun hr => by omega, fun _ => ⟨np, ha.unused, ha.first, ?_,
      fun q hq => ?_, fun v hv => ?_, hd.failed.trans ha.failed, hf.wrapped.trans ha.wrapped⟩⟩
    · simp [State.setPcb]
    · simp only [State.setPcb, upd_ne hq]
      rw [hf.pcb, ha.pcb, upd_ne hq]
    · obtain ⟨x, -, hpte, -⟩ := hd.new v hv
      have hx : s2.user d v = some x := by
        rw [State.user, hpte, Option.bind_some, if_neg (userEntry_user x), frame_add x (by decide)]
      refine ⟨x, ?_⟩
      simp only [State.setPcb, upd_same]
      exact hx
  · have hlack : o = some n := by rw [ho, if_pos hslot, hn]
    refine ⟨?_, fun _ => hu.state, by simp [hlack]⟩
    have hpages := hu.pages
    split_ifs at hpages with hne
    · exact .of_leaked rfl (hne ▸ hlack) hpages
    · exact .of_sameFree rfl hlack hne (Own.sameFree h hpages)

/-- Pages are lost exactly if it was a page table that was lacking. -/
lemma clean_iff {α : Type} {c : V α} {r : α} {S : State → Prop}
    (h : c.wp (fun r' s' => Ends (r' = r) o s s' ∧ (r' = r → S s')) (fun _ _ => o = none) s) :
    (∀ s', c.run s = .ok r s' → SameFree s s' ∧ S s') ↔ o ≠ some .table := by
  constructor
  · rintro hclean rfl
    obtain ⟨r', s', hrun, hends, -⟩ := wp_total (wp_mono h (fun _ _ => id) fun _ _ => by simp)
    obtain rfl := hends.lacks.mpr (by simp)
    exact (hends.free rfl).mp (hclean s' hrun).1 rfl
  · intro ho s' hrun
    obtain ⟨hends, hS⟩ := wp_ok h hrun
    exact ⟨(hends.free rfl).mpr ho, hS rfl⟩

/-- A call that fails loses no page exactly if it was not a page table that it could not get. -/
theorem failure_clean_iff (h : Space sy T R (s.pcb p).pgdir s) (hlive : (s.pcb p).state ≠ .unused)
    (hsz : (s.fs.proc p).sz ≤ KERNBASE)
    (hpres : ∀ v < pages (s.fs.proc p).sz, s.pte (s.pcb p).pgdir v ≠ none) :
    (SetupClean sy s ↔ setupNeeds[s.fs.freelist.length]? ≠ some .table) ∧
      (CopyClean sy (s.pcb p).pgdir (s.fs.proc p).sz s ↔
        (copyNeeds (s.fs.proc p).sz)[s.fs.freelist.length]? ≠ some .table) ∧
      (ForkClean sy p s ↔ ((∃ q < NPROC, (s.pcb q).state = .unused) →
        (forkNeeds (s.fs.proc p).sz)[s.fs.freelist.length]? ≠ some .table)) := by
  refine ⟨?_, ?_, ?_⟩
  · rw [← clean_iff (S := fun _ => True)
      (wp_mono (wp_setupkvm_ends h) (fun _ _ h => ⟨h, fun _ => trivial⟩)
      fun _ _ => False.elim)]
    simp [SetupClean]
  · rw [← clean_iff (S := fun _ => True) (wp_mono (wp_copyuvm_ends h hsz hpres)
      (fun _ _ h => ⟨h, fun _ => trivial⟩) fun _ _ => False.elim)]
    simp [CopyClean]
  · have hends := wp_fork_ends h hlive hsz hpres rfl fun np s' _ _ _ ho =>
      wp_mono (wp_onFs (wp_fork_child p np _)) (fun _ _ h => h) fun _ _ _ => ho
    rw [ForkClean, clean_iff (wp_mono hends (fun _ _ h => ⟨h.1, h.2.1⟩) fun _ _ h => h)]
    split_ifs with hslot
    · exact ⟨fun hne _ => hne, fun hne => hne hslot⟩
    · exact iff_of_true (by simp) fun hs => absurd hs hslot

/-- With one free page, `setupkvm` takes it for the page directory, cannot get the first page table,
and returns without giving the page back. -/
theorem setupkvm_leaks :
    Space twoPages (([303] ++ [300, 301, 302]).count ·) (fun _ => 0) 300 (onePageAt 0 7 [303]) ∧
      ¬ SetupClean twoPages (onePageAt 0 7 [303]) := by
  have h : Space twoPages (([303] ++ [300, 301, 302]).count ·)
      (fun _ => 0) 300 (onePageAt 0 7 [303]) :=
    space_onePageAt (by decide) (by decide) (by decide) (by decide) (by decide)
  refine ⟨h, fun hclean => ?_⟩
  obtain ⟨r, s', hrun, hends⟩ := wp_total (wp_setupkvm_ends h)
  obtain rfl := hends.lacks.mpr (by decide)
  exact (hends.free rfl).mp (hclean s' hrun) (by decide)

/-- The only process has one page, the other slots are free, and so are 65 pages. -/
def alone : State :=
  { onePageAt 0 7 (List.range' 303 65) with
    pcb := upd (fun _ => {}) 0 { state := .live, pgdir := 300 } }

/-- The 65 pages are enough for `setupkvm`. `copyuvm` then lacks the page of the child and gives all
back; `fork`, which has taken one of them for the kernel stack, lacks the last page table. -/
theorem failure_clean_alone :
    SetupClean twoPages alone ∧ CopyClean twoPages 300 PGSIZE alone ∧
      ¬ ForkClean twoPages 0 alone := by
  have h : Space twoPages ((List.range' 303 65 ++ [300, 301, 302]).count ·) (fun _ => 0)
      (alone.pcb 0).pgdir alone :=
    (space_onePageAt (by decide) (by decide) (by decide) (by decide) (by decide)).congr rfl rfl
  have hpres : ∀ v < pages (alone.fs.proc 0).sz, alone.pte (alone.pcb 0).pgdir v ≠ none :=
    fun v hv => (exactly_onePage v (hv.trans (by decide))).mpr (lt_pages.mp hv)
  obtain ⟨hsetup, hcopy, hfork⟩ := failure_clean_iff h (by decide) (by decide) hpres
  exact ⟨hsetup.mpr (by decide), hcopy.mpr (by decide),
    fun hc => hfork.mp hc ⟨1, by decide, rfl⟩ (by decide)⟩

end Failure

end Xv6.Vm
