import Xv6.Vm.Memory
import Xv6.Lib.Count
import Xv6.Lib.Refuse

/-!
# Page tables and the pages they own

`table` and `pte` read an address space from the words in memory. Pages are counted one by one:
`mass d g` is how often page `g` occurs in the address space with directory `d`, and `Own T R s`
says that each page is on the free list or among the pages `R` of somebody, `T` times in all. The
specifications of `walkpgdir`, `kalloc` and `kfree` move pages between these places. -/

namespace Xv6.Vm

open Lib Prog Finset

/-! ### Entries -/

section Entry

variable {e f g : Nat}

lemma present_eq (e : Nat) : present e = decide (e % 2 = 1) := by
  unfold present PTE_P
  rw [Nat.and_one_is_mod]
  rcases Nat.mod_two_eq_zero_or_one e with h | h <;> rw [h] <;> rfl

@[simp] lemma present_zero : present 0 = false := rfl

@[simp] lemma present_or (e : Nat) : present (e ||| PTE_P) = true := by
  rw [present_eq, decide_eq_true_eq, ← Nat.and_one_is_mod]
  unfold PTE_P
  rw [Nat.and_or_distrib_right, Nat.and_self]
  have := Nat.mod_two_eq_zero_or_one e
  rw [Nat.and_one_is_mod]
  rcases this with h | h <;> rw [h] <;> rfl

lemma page_or (g : Nat) (hf : f < PGSIZE) : PGSIZE * g ||| f = PGSIZE * g + f := by
  have h : f < 2 ^ 12 := hf
  change 2 ^ 12 * g ||| f = 2 ^ 12 * g + f
  rw [Nat.two_pow_add_eq_or_of_lt h]

lemma frame_add (g : Nat) (hf : f < PGSIZE) : frame (PGSIZE * g + f) = g := by
  unfold frame
  simp only [PGSIZE] at *
  omega

lemma and_user (e : Nat) : e &&& PTE_U = 0 ↔ e / 4 % 2 = 0 := by
  have hdiv : (e &&& PTE_U) / 2 ^ 2 = e / 2 ^ 2 % 2 := by
    rw [Nat.and_div_two_pow]
    exact Nat.and_one_is_mod _
  have hmod : (e &&& PTE_U) % 2 ^ 2 = 0 := by
    rw [Nat.and_mod_two_pow]
    exact Nat.and_zero _
  omega

end Entry

/-! ### Reading and writing pages -/

section Rules

variable {α β : Type} {s : State} {g : Nat} {c : Byte} {Q : β → State → Prop}
  {E : Option Panic → State → Prop}

@[simp] lemma wp_read {f : State → α} {q : α → V β} :
    (read f >>= q).wp Q E s ↔ (q (f s)).wp Q E s := Iff.rfl

@[simp] lemma wp_write {u : State → State} {q : Unit → V β} :
    (write u >>= q).wp Q E s ↔ (q ()).wp Q E (u s) := Iff.rfl

@[simp] lemma wp_memset {q : Unit → V β} :
    (memset g c >>= q).wp Q E s ↔ (q ()).wp Q E (s.setPage g fun _ => c) := Iff.rfl

end Rules

/-! ### Refused pages -/

/-- The code when the calls of `kalloc` are refused as the list in the state says. A call that is
refused finds no free page. -/
def refusing {α : Type} (p : V α) : Prog Act (State × List Bool) Panic α :=
  p.refuse (fun l => decide (l = .kalloc)) (fun s => s.setFree []) fun s s' =>
    s'.setFree s.fs.freelist

/-- How many calls of `kalloc` are granted before the first that is not, with `n` free pages. -/
def granted (bs : List Bool) : Nat → Nat
  | 0 => 0
  | n + 1 => if bs.headD false then 0 else granted bs.tail n + 1

section Refusing

variable {α β : Type} {s : State} {g n : Nat} {c : Byte} {bs : List Bool}
  {Q : β → State × List Bool → Prop} {E : Option Panic → State × List Bool → Prop}

lemma granted_nil : granted [] n = n := by
  induction n with
  | zero => rfl
  | succ n ih => exact congrArg (· + 1) ih

@[simp] lemma refusing_bind (p : V α) (f : α → V β) :
    refusing (p >>= f) = refusing p >>= fun a => refusing (f a) := refuse_bind

@[simp] lemma wp_refusing_read {f : State → α} {q : α → Prog Act (State × List Bool) Panic β} :
    (refusing (read f) >>= q).wp Q E (s, bs) ↔ (q (f s)).wp Q E (s, bs) := Iff.rfl

@[simp] lemma wp_refusing_write {u : State → State}
    {q : Unit → Prog Act (State × List Bool) Panic β} :
    (refusing (write u) >>= q).wp Q E (s, bs) ↔ (q ()).wp Q E (u s, bs) := Iff.rfl

@[simp] lemma wp_refusing_memset {q : Unit → Prog Act (State × List Bool) Panic β} :
    (refusing (memset g c) >>= q).wp Q E (s, bs) ↔
    (q ()).wp Q E (s.setPage g fun _ => c, bs) := Iff.rfl

lemma wp_refusing_nil {p : V α} {Q : α → State → Prop} {E : Option Panic → State → Prop} :
    (refusing p).wp (fun a t => Q a t.1) (fun e t => E e t.1) (s, []) ↔ p.wp Q E s := wp_refuse_nil

lemma wp_refusing_kalloc {Q : Option Nat → State × List Bool → Prop}
    (hsome : ∀ g l, s.fs.freelist = g :: l →
      granted bs s.fs.freelist.length = granted bs.tail l.length + 1 →
        Q (some g) (s.setFree l, bs.tail))
    (hnone : granted bs s.fs.freelist.length = 0 → Q none ({ s with failed := true }, bs.tail)) :
    (refusing kalloc).wp Q E (s, bs) := by
  cases hb : bs.headD false with
  | true =>
    have hzero : granted bs s.fs.freelist.length = 0 := by
      cases s.fs.freelist.length with
      | zero => rfl
      | succ n => rw [granted, if_pos hb]
    have hrun : (refusing kalloc).run (s, bs) = .ok none ({ s with failed := true }, bs.tail) := by
      unfold refusing kalloc
      rw [refuse_ask rfl, run_act]
      simp only [hb, cond_true]
      rfl
    exact wp_of_run hrun (hnone hzero)
  | false =>
    cases hf : s.fs.freelist with
    | nil =>
      have hrun : (refusing kalloc).run (s, bs) = .ok none ({ s with failed := true },
        bs.tail) := by
        unfold refusing kalloc
        rw [refuse_ask rfl, run_act]
        simp only [hb, hf, cond_true, cond_false]
        rfl
      exact wp_of_run hrun (hnone (by rw [hf]; rfl))
    | cons g l =>
      have hrun : (refusing kalloc).run (s, bs) = .ok (some g) (s.setFree l, bs.tail) := by
        unfold refusing kalloc
        rw [refuse_ask rfl, run_act]
        simp only [hb, hf, cond_true, cond_false]
        rfl
      refine wp_of_run hrun (hsome g l hf ?_)
      rw [hf, List.length_cons, granted, if_neg (by rw [hb]; decide)]

end Refusing

namespace State

variable {s : State} {g h i j e : Nat} {b : Bytes} {l : List Nat}

@[simp] lemma setPage_pcb : (s.setPage g b).pcb = s.pcb := rfl
@[simp] lemma setWord_fs : (s.setWord g i e).fs = s.fs := rfl
@[simp] lemma setFree_page : (s.setFree l).page = s.page := rfl
@[simp] lemma setFree_pcb : (s.setFree l).pcb = s.pcb := rfl
@[simp] lemma setFree_freelist : (s.setFree l).fs.freelist = l := rfl
@[simp] lemma setPage_same : (s.setPage g b).page g = b := upd_same ..

lemma setPage_ne (hg : h ≠ g) : (s.setPage g b).page h = s.page h := upd_ne hg

lemma setWord_ne (hg : h ≠ g) : (s.setWord g i e).page h = s.page h := upd_ne hg

lemma word_congr {s' : State} (hp : s'.page g = s.page g) : s'.word g i = s.word g i := by
  unfold word
  rw [hp]

lemma word_setWord_same (he : e < 2 ^ 32) : (s.setWord g i e).word g i = e := by
  unfold word setWord
  rw [setPage_same, Bytes.le_putLe_same]
  exact Nat.mod_eq_of_lt he

lemma word_setWord_ne (hij : j ≠ i) : (s.setWord g i e).word g j = s.word g j := by
  unfold word setWord
  rw [setPage_same, Bytes.le_putLe_of_disjoint (by omega)]

lemma word_lt (s : State) (g i : Nat) : s.word g i < 2 ^ 32 := Bytes.le_lt ..

end State

/-! ### Address spaces -/

/-- Pages below `KERNBASE`. -/
def NUSER : Nat := 524288

/-- Pages of an address space. -/
def NPAGES : Nat := 1048576

/-- An entry, if it is present. -/
def valid (e : Nat) : Option Nat := if present e then some e else none

/-- The page table that entry `i` of directory `d` refers to. -/
def State.table (s : State) (d i : Nat) : Option Nat := (valid (s.word d i)).map frame

/-- The entry of page `v` in the address space with directory `d`, if the page is present. -/
def State.pte (s : State) (d v : Nat) : Option Nat :=
  (s.table d (v / 1024)).bind fun t => valid (s.word t (v % 1024))

/-- The entry of page `v`, present or not; 0 where there is no page table. -/
def State.entry (s : State) (d v : Nat) : Nat :=
  (s.table d (v / 1024)).elim 0 fun t => s.word t (v % 1024)

/-- The page that page `v` of the address space is mapped to. -/
def State.leaf (s : State) (d v : Nat) : Option Nat := (s.pte d v).map frame

/-- The page that user code uses at page `v` of the address space. -/
def State.user (s : State) (d v : Nat) : Option Nat :=
  (s.pte d v).bind fun e => if e &&& PTE_U = 0 then none else some (frame e)

/-- How often page `g` occurs in the address space with directory `d`: as the directory, as one of
its tables, or as a page of the user part. -/
@[irreducible] def State.mass (s : State) (d g : Nat) : Nat :=
  (if d = g then 1 else 0) + occ (Finset.range NPDENTRIES) (s.table d) (some g) +
    occ (Finset.range NUSER) (s.leaf d) (some g)

section Views

variable {s u : State} {d v w i t g e : Nat}

@[simp] lemma valid_zero : valid 0 = none := rfl

lemma valid_of_present (h : present e = true) : valid e = some e := if_pos h

lemma valid_of_not (h : ¬ present e = true) : valid e = none := if_neg h

lemma table_congr (h : u.page d = s.page d) (i : Nat) : u.table d i = s.table d i := by
  unfold State.table
  rw [State.word_congr h]

lemma div_lt_tables (hv : v < NPAGES) : v / 1024 < NPDENTRIES := by
  simp only [NPAGES, NPDENTRIES] at *
  omega

lemma pte_congr (hd : u.page d = s.page d)
    (ht : ∀ i < NPDENTRIES, ∀ t, s.table d i = some t → u.page t = s.page t) (hv : v < NPAGES) :
    u.pte d v = s.pte d v := by
  unfold State.pte
  rw [table_congr hd]
  cases h : s.table d (v / 1024) with
  | none => rfl
  | some t =>
    rw [Option.bind_some, Option.bind_some, State.word_congr (ht _ (div_lt_tables hv) t h)]

lemma pte_of_table (h : s.table d (v / 1024) = some t) :
    s.pte d v = valid (s.word t (v % 1024)) := by
  rw [State.pte, h, Option.bind_some]

lemma pte_of_no_table (h : s.table d (v / 1024) = none) : s.pte d v = none := by
  rw [State.pte, h, Option.bind_none]

lemma entry_of_table (h : s.table d (v / 1024) = some t) : s.entry d v = s.word t (v % 1024) := by
  rw [State.entry, h, Option.elim_some]

lemma entry_of_no_table (h : s.table d (v / 1024) = none) : s.entry d v = 0 := by
  rw [State.entry, h, Option.elim_none]

lemma pte_eq (s : State) (d v : Nat) : s.pte d v = valid (s.entry d v) := by
  cases h : s.table d (v / 1024) with
  | none => rw [pte_of_no_table h, entry_of_no_table h, valid_zero]
  | some t => rw [pte_of_table h, entry_of_table h]

lemma leaf_congr (h : u.pte d v = s.pte d v) : u.leaf d v = s.leaf d v := by
  rw [State.leaf, h, State.leaf]

lemma user_congr (h : u.pte d v = s.pte d v) : u.user d v = s.user d v := by
  rw [State.user, h, State.user]

lemma user_leaf (h : s.user d v = some g) : s.leaf d v = some g := by
  obtain ⟨e, he, hg⟩ := Option.bind_eq_some_iff.mp h
  split_ifs at hg
  rw [State.leaf, he, Option.map_some, Option.some.inj hg]

lemma mass_congr (ht : ∀ i < NPDENTRIES, u.table d i = s.table d i)
    (hp : ∀ v < NUSER, u.pte d v = s.pte d v) (g : Nat) : u.mass d g = s.mass d g := by
  unfold State.mass
  rw [occ_congr fun i hi => ht i (mem_range.mp hi),
    occ_congr fun v hv => leaf_congr (hp v (mem_range.mp hv))]

/-- One page of the user part is mapped, unmapped or mapped elsewhere. -/
lemma mass_change (hv : v < NUSER) (ht : ∀ i < NPDENTRIES, u.table d i = s.table d i)
    (hp : ∀ w < NUSER, w ≠ v → u.pte d w = s.pte d w) (g : Nat) :
    u.mass d g + (s.leaf d v).toList.count g = s.mass d g + (u.leaf d v).toList.count g := by
  have hocc := occ_change_some (S := Finset.range NUSER) (v := s.leaf d) (w := u.leaf d) (b := g)
    (mem_range.mpr hv) fun w hw hne => leaf_congr (hp w (mem_range.mp hw) hne)
  have htab : occ (Finset.range NPDENTRIES) (u.table d) (some g) =
      occ (Finset.range NPDENTRIES) (s.table d) (some g) :=
    occ_congr fun i hi => ht i (mem_range.mp hi)
  unfold State.mass
  rw [htab]
  omega

/-- One page table is added. -/
lemma mass_table_change (hi : i < NPDENTRIES)
    (ht : ∀ j < NPDENTRIES, j ≠ i → u.table d j = s.table d j)
    (hp : ∀ v < NUSER, u.pte d v = s.pte d v) (g : Nat) :
    u.mass d g + (s.table d i).toList.count g = s.mass d g + (u.table d i).toList.count g := by
  have hocc := occ_change_some (S := Finset.range NPDENTRIES) (v := s.table d) (w := u.table d)
    (b := g) (mem_range.mpr hi) fun j hj hne => ht j (mem_range.mp hj) hne
  have hleaf : occ (Finset.range NUSER) (u.leaf d) (some g) =
      occ (Finset.range NUSER) (s.leaf d) (some g) :=
    occ_congr fun v hv => leaf_congr (hp v (mem_range.mp hv))
  unfold State.mass
  rw [hleaf]
  omega

/-- The address space is a matter of the pages alone. -/
lemma mass_of_page (h : u.page = s.page) (d g : Nat) : u.mass d g = s.mass d g := by
  refine mass_congr (fun i _ => table_congr (by rw [h]) i) (fun v hv => ?_) g
  exact pte_congr (by rw [h]) (fun _ _ _ _ => by rw [h]) (hv.trans (by decide))

@[simp] lemma setFree_mass (l : List Nat) : (s.setFree l).mass d g = s.mass d g :=
  mass_of_page (u := s.setFree l) (s := s) rfl d g

lemma mass_dir (s : State) (d : Nat) : 0 < s.mass d d := by
  unfold State.mass
  rw [if_pos rfl]
  omega

lemma mass_table (hi : i < NPDENTRIES) (h : s.table d i = some t) : 0 < s.mass d t := by
  have := occ_pos (S := Finset.range NPDENTRIES) (mem_range.mpr hi) h
  unfold State.mass
  omega

lemma mass_leaf (hv : v < NUSER) (h : s.leaf d v = some g) : 0 < s.mass d g := by
  have := occ_pos (S := Finset.range NUSER) (mem_range.mpr hv) h
  unfold State.mass
  omega

end Views

/-! ### Who owns a page -/

/-- `kfree` accepts page `g`. -/
def Symbols.Valid (sy : Symbols) (g : Nat) : Prop :=
  ¬ (KERNBASE + PGSIZE * g < sy.fin ∨ PHYSTOP ≤ PGSIZE * g)

instance (sy : Symbols) (g : Nat) : Decidable (sy.Valid g) := inferInstanceAs (Decidable (¬ _))

/-- Each page `g` is on the free list or `R g` times somewhere else, `T g` times in all. -/
structure Own (sy : Symbols) (T R : Nat → Nat) (s : State) : Prop where
  count : ∀ g, s.fs.freelist.count g + R g = T g
  once : ∀ g, T g ≤ 1
  valid : ∀ g, 0 < T g → sy.Valid g

/-- The pages of the address space with directory `d` besides those of `R`. -/
def Space (sy : Symbols) (T R : Nat → Nat) (d : Nat) (s : State) : Prop :=
  Own sy T (fun g => s.mass d g + R g) s

/-- The pages of `R` and page `g`. -/
def plus (R : Nat → Nat) (g : Nat) : Nat → Nat := fun x => R x + [g].count x

/-- Of what is not memory only the free list has changed, and the pages of `R` have not. -/
structure Frame (R : Nat → Nat) (s s' : State) : Prop where
  fs : s'.fs = { s.fs with freelist := s'.fs.freelist }
  pcb : s'.pcb = s.pcb
  page : ∀ g, 0 < R g → s'.page g = s.page g
  wrapped : s'.wrapped = s.wrapped

section Own

variable {sy : Symbols} {T R R' : Nat → Nat} {s s' s'' : State} {d i j v w t g : Nat} {l : List Nat}

lemma Symbols.Valid.pos (h : sy.Valid g) : 0 < g := by
  have h1 := sy.text
  have h2 := sy.data_le
  have h3 : ¬ (KERNBASE + PGSIZE * g < sy.fin) := fun hlt => h (.inl hlt)
  simp only [KERNLINK, KERNBASE, EXTMEM, PGSIZE] at *
  omega

lemma Symbols.Valid.lt (h : sy.Valid g) : g < NUSER := by
  have h1 : ¬ (PHYSTOP ≤ PGSIZE * g) := fun hle => h (.inr hle)
  simp only [PHYSTOP, PGSIZE, NUSER] at *
  omega

/-- A page that `kfree` accepts lies behind the kernel. -/
lemma Symbols.Valid.data_lt (h : sy.Valid g) : sy.data < KERNBASE + PHYSTOP := by
  have h1 : ¬ (KERNBASE + PGSIZE * g < sy.fin) := fun hlt => h (.inl hlt)
  have h2 : ¬ (PHYSTOP ≤ PGSIZE * g) := fun hle => h (.inr hle)
  have h3 := sy.data_le
  omega

lemma next_page (h : v + 1 < NPAGES) : (PGSIZE * v + PGSIZE) % 2 ^ 32 = PGSIZE * (v + 1) := by
  simp only [PGSIZE, NPAGES] at *
  omega

lemma page_ne_last (v n : Nat) : ¬ PGSIZE * v = PGSIZE * (v + (n + 1)) := by
  simp only [PGSIZE]
  omega

lemma Own.congr (h : Own sy T R s) (hR : ∀ g, R' g = R g)
    (hf : s'.fs.freelist = s.fs.freelist) : Own sy T R' s' :=
  ⟨fun g => by rw [hf, hR]; exact h.count g, h.once, h.valid⟩

lemma Own.le_one (h : Own sy T R s) (g : Nat) : s.fs.freelist.count g + R g ≤ 1 :=
  h.count g ▸ h.once g

lemma Own.valid_of_pos (h : Own sy T R s) (hg : 0 < R g) : sy.Valid g := by
  have := h.count g
  exact h.valid g (by omega)

lemma Own.valid_of_free (h : Own sy T R s) (hg : g ∈ s.fs.freelist) : sy.Valid g := by
  have := h.count g
  have := List.count_pos_iff.mpr hg
  exact h.valid g (by omega)

lemma Own.not_free (h : Own sy T R s) (hg : g ∈ s.fs.freelist) : R g = 0 := by
  have := h.le_one g
  have := List.count_pos_iff.mpr hg
  omega

/-- What is free later, and belongs to nobody before, was free. -/
lemma Own.mem_of_mem (h : Own sy T R s) (h' : Own sy T R' s') (hR : ∀ g, R g ≤ R' g)
    (hg : g ∈ s'.fs.freelist) : g ∈ s.fs.freelist := by
  have h1 := h.count g
  have h2 := h'.count g
  have h3 := List.count_pos_iff.mpr hg
  have h4 := h'.not_free hg
  have h5 := hR g
  exact List.count_pos_iff.mp (by omega)

@[simp] lemma plus_same : plus R g g = R g + 1 := by simp [plus]

lemma le_plus (R : Nat → Nat) (g x : Nat) : R x ≤ plus R g x := Nat.le_add_right ..

lemma add_plus (M : Nat → Nat) (g x : Nat) : M x + plus R g x = plus (fun y => M y + R y) g x :=
  (Nat.add_assoc ..).symm

/-- A change outside the pages and the free list. -/
lemma Space.congr (h : Space sy T R d s) (hp : s'.page = s.page)
    (hf : s'.fs.freelist = s.fs.freelist) : Space sy T R d s' :=
  Own.congr h (fun g => by rw [mass_of_page hp]) hf

@[refl] lemma Frame.refl (R : Nat → Nat) (s : State) :
    Frame R s s := ⟨rfl, rfl, fun _ _ => rfl, rfl⟩

lemma Frame.trans (h : Frame R s s') (h' : Frame R s' s'') : Frame R s s'' where
  fs := by
    rw [h'.fs, h.fs]
  pcb := h'.pcb.trans h.pcb
  page g hg := (h'.page g hg).trans (h.page g hg)
  wrapped := h'.wrapped.trans h.wrapped

lemma Frame.mono (h : Frame R' s s') (hR : ∀ g, 0 < R g → 0 < R' g) : Frame R s s' :=
  ⟨h.fs, h.pcb, fun g hg => h.page g (hR g hg), h.wrapped⟩

lemma frame_setFree (R : Nat → Nat) (s : State) (l : List Nat) : Frame R s (s.setFree l) :=
  ⟨rfl, rfl, fun _ _ => rfl, rfl⟩

lemma frame_setPage {b : Bytes} (hg : R g = 0) : Frame R s (s.setPage g b) := by
  refine ⟨rfl, rfl, fun x hx => State.setPage_ne ?_, rfl⟩
  rintro rfl
  omega

lemma frame_setWord {e : Nat} (hg : R g = 0) : Frame R s (s.setWord g i e) := frame_setPage hg

lemma frame_failed (R : Nat → Nat) (s : State) : Frame R s { s with failed := true } :=
  ⟨rfl, rfl, fun _ _ => rfl, rfl⟩

/-! ### The places of an address space are different pages -/

lemma Space.rest_zero (h : Space sy T R d s) (hg : 0 < s.mass d g) : R g = 0 := by
  have h1 : _ + (_ + _) ≤ 1 := Own.le_one h g
  omega

lemma Space.mass_zero (h : Space sy T R d s) (hg : 0 < R g) : s.mass d g = 0 := by
  have h1 : _ + (_ + _) ≤ 1 := Own.le_one h g
  omega

lemma Space.mass_le_one (h : Space sy T R d s) (g : Nat) : s.mass d g ≤ 1 := by
  have h1 : _ + (_ + _) ≤ 1 := Own.le_one h g
  omega

lemma Space.table_ne_dir (h : Space sy T R d s) (hi : i < NPDENTRIES) (ht : s.table d i = some t) :
    t ≠ d := by
  rintro rfl
  have h1 := h.mass_le_one t
  have h2 := occ_pos (S := Finset.range NPDENTRIES) (mem_range.mpr hi) ht
  unfold State.mass at h1
  rw [if_pos rfl] at h1
  omega

lemma Space.table_inj (h : Space sy T R d s) (hi : i < NPDENTRIES) (hj : j < NPDENTRIES)
    (hti : s.table d i = some t) (htj : s.table d j = some t) : i = j := by
  by_contra hij
  have h1 := h.mass_le_one t
  have h2 := one_lt_occ (S := Finset.range NPDENTRIES) (mem_range.mpr hi)
    (mem_range.mpr hj) hij hti htj
  unfold State.mass at h1
  omega

lemma Space.leaf_inj (h : Space sy T R d s) (hv : v < NUSER) (hw : w < NUSER)
    (hgv : s.leaf d v = some g) (hgw : s.leaf d w = some g) : v = w := by
  by_contra hvw
  have h1 := h.mass_le_one g
  have h2 := one_lt_occ (S := Finset.range NUSER) (mem_range.mpr hv) (mem_range.mpr hw)
    hvw hgv hgw
  unfold State.mass at h1
  omega

lemma Space.leaf_ne_dir (h : Space sy T R d s) (hv : v < NUSER) (hg : s.leaf d v = some g) :
    g ≠ d := by
  rintro rfl
  have h1 := h.mass_le_one g
  have h2 := occ_pos (S := Finset.range NUSER) (mem_range.mpr hv) hg
  unfold State.mass at h1
  rw [if_pos rfl] at h1
  omega

lemma Space.leaf_ne_table (h : Space sy T R d s) (hv : v < NUSER) (hg : s.leaf d v = some g)
    (hi : i < NPDENTRIES) (ht : s.table d i = some t) : t ≠ g := by
  rintro rfl
  have h1 := h.mass_le_one t
  have h2 := occ_pos (S := Finset.range NUSER) (mem_range.mpr hv) hg
  have h3 := occ_pos (S := Finset.range NPDENTRIES) (mem_range.mpr hi) ht
  unfold State.mass at h1
  omega

/-- A page that is no part of the address space, or only mapped in it, may be written. -/
lemma Space.views {u : State} (h : Space sy T R d s) (hd : u.page d = s.page d)
    (ht : ∀ i < NPDENTRIES, ∀ t, s.table d i = some t → u.page t = s.page t)
    (hf : u.fs.freelist = s.fs.freelist) :
    Space sy T R d u ∧ (∀ i, u.table d i = s.table d i) ∧ ∀ v < NPAGES, u.pte d v = s.pte d v := by
  have hp : ∀ v < NPAGES, u.pte d v = s.pte d v := fun v hv => pte_congr hd ht hv
  refine ⟨Own.congr h (fun g => ?_) hf, table_congr hd, hp⟩
  rw [mass_congr (fun i _ => table_congr hd i) fun v hv => hp v (hv.trans (by decide))]

/-- An address space whose pages are as before is as before. -/
lemma mass_of_pages {u : State} (h : ∀ g, 0 < s.mass d g → u.page g = s.page g) :
    (∀ i, u.table d i = s.table d i) ∧ (∀ v < NPAGES, u.pte d v = s.pte d v) ∧
      ∀ g, u.mass d g = s.mass d g := by
  have hd := h d (mass_dir s d)
  have hp : ∀ v < NPAGES, u.pte d v = s.pte d v := fun v hv =>
    pte_congr hd (fun i hi t ht => h t (mass_table hi ht)) hv
  exact ⟨table_congr hd, hp, mass_congr (fun i _ => table_congr hd i) fun v hv =>
    hp v (hv.trans (by decide))⟩

end Own

/-! ### `kalloc` and `kfree` -/

section Kalloc

variable {sy : Symbols} {T R : Nat → Nat} {s : State} {d v g t : Nat} {l : List Nat}
  {Q : Option Nat → State → Prop} {Q' : Unit → State → Prop} {E : Option Panic → State → Prop}

/-- The first free page is taken off the list. -/
lemma Own.take (h : Own sy T R s) (hf : s.fs.freelist = g :: l) :
    Own sy T (plus R g) (s.setFree l) := by
  refine ⟨fun x => ?_, h.once, h.valid⟩
  have := h.count x
  rw [hf, count_cons_single] at this
  unfold plus
  rw [State.setFree_freelist]
  omega

lemma Space.take (h : Space sy T R d s) (hf : s.fs.freelist = g :: l) :
    Space sy T (plus R g) d (s.setFree l) := by
  refine Own.congr (Own.take h hf) (fun x => ?_) rfl
  rw [setFree_mass]
  exact add_plus (fun y => s.mass d y) g x

lemma wp_kalloc (h : Own sy T R s)
    (hsome : ∀ g l, s.fs.freelist = g :: l → Own sy T (plus R g) (s.setFree l) →
      sy.Valid g → R g = 0 →
      Q (some g) (s.setFree l))
    (hnone : s.fs.freelist = [] → Q none { s with failed := true }) : kalloc.wp Q E s := by
  rw [kalloc, wp_act, if_pos rfl]
  cases hf : s.fs.freelist with
  | nil => exact hnone hf
  | cons g l =>
    have hmem : g ∈ s.fs.freelist := by rw [hf]; exact List.mem_cons_self
    exact hsome g l hf (h.take hf) (h.valid_of_free hmem) (h.not_free hmem)

/-- `kalloc` beside an address space. -/
lemma wp_kalloc_space (h : Space sy T R d s)
    (hsome : ∀ g l, s.fs.freelist = g :: l → Space sy T (plus R g) d (s.setFree l) →
      Q (some g) (s.setFree l))
    (hnone : s.fs.freelist = [] → Q none { s with failed := true }) : kalloc.wp Q E s :=
  wp_kalloc h (fun g l hf _ _ _ => hsome g l hf (h.take hf)) hnone

/-- A page in hand may be written. -/
lemma Space.setPage (h : Space sy T (plus R g) d s) (b : Bytes) :
    Space sy T (plus R g) d (s.setPage g b) ∧ Frame R s (s.setPage g b) ∧
      (∀ i, (s.setPage g b).table d i = s.table d i) ∧
      ∀ v < NPAGES, (s.setPage g b).pte d v = s.pte d v := by
  have hmass : s.mass d g = 0 := h.mass_zero (by rw [plus_same]; omega)
  have hgd : d ≠ g := by
    rintro rfl
    have := mass_dir s d
    omega
  have hgt : ∀ i < NPDENTRIES, ∀ t, s.table d i = some t → t ≠ g := by
    rintro i hi t ht rfl
    have := mass_table hi ht
    omega
  have hR : R g = 0 := by
    have h1 : _ + (_ + _) ≤ 1 := Own.le_one h g
    rw [plus_same] at h1
    omega
  obtain ⟨h₁, htable, hpte⟩ := h.views (u := s.setPage g b) (State.setPage_ne hgd)
    (fun i hi t ht => State.setPage_ne (hgt i hi t ht)) rfl
  exact ⟨h₁, frame_setPage hR, htable, hpte⟩

/-- The state after `kfree` of page `g`. -/
def State.freed (s : State) (g : Nat) : State :=
  (s.setPage g fun _ => 1).setFree (g :: s.fs.freelist)

lemma Own.freed (h : Own sy T (plus R g) s) : Own sy T R (s.freed g) := by
  refine ⟨fun x => ?_, h.once, h.valid⟩
  have := h.count x
  unfold plus at this
  rw [State.freed, State.setFree_freelist, count_cons_single]
  omega

lemma wp_kfree (h : Own sy T (plus R g) s) (hQ : Own sy T R (s.freed g) → Q' () (s.freed g)) :
    (kfree sy g).wp Q' E s := by
  have hvalid : sy.Valid g := h.valid_of_pos (by rw [plus_same]; omega)
  rw [kfree, if_neg hvalid]
  exact hQ h.freed

end Kalloc

/-! ### `walkpgdir` -/

section Walk

variable {sy : Symbols} {T R : Nat → Nat} {s : State} {d v w i t g e : Nat} {l : List Nat}

lemma PDX_page (hv : v < NPAGES) : PDX (PGSIZE * v) = v / 1024 := by
  simp only [PDX, PGSIZE, NPAGES] at *
  omega

lemma PTX_page : PTX (PGSIZE * v) = v % 1024 := by
  simp only [PTX, PGSIZE]
  omega

lemma table_eq_some : s.table d i = some t ↔ present (s.word d i) = true ∧
    frame (s.word d i) = t := by
  unfold State.table valid
  split_ifs with h <;> simp [h]

lemma table_eq_none : s.table d i = none ↔ present (s.word d i) = false := by
  unfold State.table valid
  split_ifs with h <;> simp [h]

lemma run_walkpgdir_found (hv : v < NPAGES) (ht : s.table d (v / 1024) = some t) (alloc : Bool) :
    (walkpgdir d (PGSIZE * v) alloc).run s = .ok (some (t, v % 1024)) s := by
  obtain ⟨hp, hf⟩ := table_eq_some.mp ht
  rw [walkpgdir, PDX_page hv, PTX_page]
  change (if present (s.word d (v / 1024)) = true then
    (pure (some (frame (s.word d (v / 1024)), v % 1024)) : V _) else _).run s = _
  rw [if_pos hp, hf]
  rfl

lemma run_walkpgdir_missing (hv : v < NPAGES) (ht : s.table d (v / 1024) = none) :
    (walkpgdir d (PGSIZE * v) false).run s = .ok none s := by
  have hp := table_eq_none.mp ht
  rw [walkpgdir, PDX_page hv]
  change (if present (s.word d (v / 1024)) = true then _ else
    if !false then (pure none : V _) else _).run s = _
  rw [if_neg (by rw [hp]; decide), if_pos (by decide)]
  rfl

/-- The state after a new page table `t` was entered at `i`. -/
def State.tabled (s : State) (d i t : Nat) (l : List Nat) : State :=
  ((s.setFree l).setPage t fun _ => 0).setWord d i (PGSIZE * t ||| PTE_P ||| PTE_W ||| PTE_U)

/-- `walkpgdir` finds the table, makes it of a free page, or is refused one. -/
lemma wp_refusing_walkpgdir {bs : List Bool} {Q : Option (Nat × Nat) → State × List Bool → Prop}
    {E : Option Panic → State × List Bool → Prop} (hv : v < NPAGES)
    (hfound : ∀ t, s.table d (v / 1024) = some t → Q (some (t, v % 1024)) (s, bs))
    (hnew : ∀ t l, s.table d (v / 1024) = none → s.fs.freelist = t :: l →
      granted bs s.fs.freelist.length = granted bs.tail l.length + 1 →
      Q (some (t, v % 1024)) (s.tabled d (v / 1024) t l, bs.tail))
    (hfail : s.table d (v / 1024) = none → granted bs s.fs.freelist.length = 0 →
      Q none ({ s with failed := true }, bs.tail)) :
    (refusing (walkpgdir d (PGSIZE * v) true)).wp Q E (s, bs) := by
  rw [walkpgdir, refusing_bind, wp_refusing_read, PDX_page hv, PTX_page]
  cases ht : s.table d (v / 1024) with
  | some t =>
    obtain ⟨hp, hf⟩ := table_eq_some.mp ht
    rw [if_pos hp, hf]
    exact hfound t ht
  | none =>
    have hp := table_eq_none.mp ht
    rw [if_neg (by rw [hp]; decide), if_neg (by decide), refusing_bind]
    refine wp_bind.mpr (wp_refusing_kalloc (fun t l hf hg => ?_) (hfail ht))
    exact hnew t l ht hf hg

/-- The entry of a new page table. -/
lemma pde_eq (t : Nat) : PGSIZE * t ||| PTE_P ||| PTE_W ||| PTE_U = PGSIZE * t + 7 := by
  rw [Nat.or_assoc, Nat.or_assoc]
  exact page_or t (by decide)

lemma present_page (t : Nat) {f : Nat} (hf : f % 2 = 1) : present (PGSIZE * t + f) = true := by
  rw [present_eq, decide_eq_true_eq]
  simp only [PGSIZE]
  omega

lemma tabled_page {x : Nat} (hd : x ≠ d) (ht : x ≠ t) : (s.tabled d i t l).page x = s.page x := by
  rw [State.tabled, State.setWord_ne hd, State.setPage_ne ht, State.setFree_page]

/-- The page tables of directory `d` are different pages, and so are the free ones. -/
structure Apart (d : Nat) (s : State) : Prop where
  inj : ∀ i < NPDENTRIES, ∀ j < NPDENTRIES, ∀ t, s.table d i = some t → s.table d j = some t → i = j
  ne_dir : ∀ i < NPDENTRIES, s.table d i ≠ some d
  nodup : s.fs.freelist.Nodup
  lt : ∀ g ∈ s.fs.freelist, g < NPAGES
  fresh : ∀ g ∈ s.fs.freelist, g ≠ d ∧ ∀ i < NPDENTRIES, s.table d i ≠ some g

lemma Apart.congr {u : State} (h : Apart d s) (ht : ∀ i, u.table d i = s.table d i)
    (hf : u.fs.freelist = s.fs.freelist) : Apart d u := by
  refine ⟨?_, ?_, hf ▸ h.nodup, hf ▸ h.lt, ?_⟩
  · simp only [ht]
    exact h.inj
  · simp only [ht]
    exact h.ne_dir
  · simp only [ht, hf]
    exact h.fresh

/-- Storing an entry changes it for one page. -/
lemma Apart.entry_setWord (h : Apart d s) (hv : v < NPAGES) (ht : s.table d (v / 1024) = some t)
    (he : e < 2 ^ 32) :
    (∀ j, (s.setWord t (v % 1024) e).table d j = s.table d j) ∧
      ∀ w < NPAGES, (s.setWord t (v % 1024) e).entry d w = if w = v then e else s.entry d w := by
  have htd : d ≠ t := by
    rintro rfl
    exact h.ne_dir _ (div_lt_tables hv) ht
  have htable : ∀ j, (s.setWord t (v % 1024) e).table d j = s.table d j :=
    table_congr (State.setWord_ne htd)
  refine ⟨htable, fun w hw => ?_⟩
  cases htw : s.table d (w / 1024) with
  | none =>
    have hne : w ≠ v := by
      rintro rfl
      simp [ht] at htw
    rw [if_neg hne, entry_of_no_table htw, entry_of_no_table ((htable _).trans htw)]
  | some t' =>
    rw [entry_of_table htw, entry_of_table ((htable _).trans htw)]
    by_cases htt : t' = t
    · subst htt
      have hdir := h.inj _ (div_lt_tables hv) _ (div_lt_tables hw) _ ht htw
      split_ifs with hwv
      · rw [hwv, State.word_setWord_same he]
      · rw [State.word_setWord_ne (by omega)]
    · have hne : w ≠ v := by
        rintro rfl
        rw [ht] at htw
        exact htt (Option.some.inj htw).symm
      rw [if_neg hne, State.word_congr (State.setWord_ne htt)]

/-- A new page table changes no entry. -/
lemma Apart.tabled (h : Apart d s) (hnone : s.table d i = none) (hf : s.fs.freelist = t :: l) :
    Apart d (s.tabled d i t l) ∧
      (∀ j, (s.tabled d i t l).table d j = if j = i then some t else s.table d j) ∧
      ∀ v < NPAGES, (s.tabled d i t l).entry d v = s.entry d v := by
  have hmem : t ∈ s.fs.freelist := by rw [hf]; exact List.mem_cons_self
  obtain ⟨htd, hfresh⟩ := h.fresh t hmem
  have hlt : PGSIZE * t + 7 < 2 ^ 32 := by
    have := h.lt t hmem
    simp only [PGSIZE, NPAGES] at *
    omega
  -- the words of the directory
  have hword : (s.tabled d i t l).word d i = PGSIZE * t + 7 := by
    rw [State.tabled, pde_eq, State.word_setWord_same hlt]
  have hwords : ∀ j, j ≠ i → (s.tabled d i t l).word d j = s.word d j := by
    intro j hj
    rw [State.tabled, State.word_setWord_ne hj]
    exact State.word_congr (State.setPage_ne (Ne.symm htd))
  have htable : ∀ j, (s.tabled d i t l).table d j = if j = i then some t else s.table d j := by
    intro j
    split_ifs with hj
    · rw [hj, table_eq_some, hword]
      exact ⟨present_page t (by decide), frame_add t (by decide)⟩
    · unfold State.table
      rw [hwords j hj]
  have hnodup := hf ▸ h.nodup
  have hrest : ∀ g ∈ l, g ∈ s.fs.freelist := fun g hg => by rw [hf]; exact List.mem_cons_of_mem _ hg
  refine ⟨⟨?_, ?_, (List.nodup_cons.mp hnodup).2, fun g hg => h.lt g (hrest g hg), ?_⟩, htable, ?_⟩
  · intro j hj k hk x hjx hkx
    rw [htable] at hjx hkx
    split_ifs at hjx hkx with hji hki hki
    · rw [hji, hki]
    · exact absurd (hkx.trans hjx.symm) (hfresh k hk)
    · exact absurd (hjx.trans hkx.symm) (hfresh j hj)
    · exact h.inj j hj k hk x hjx hkx
  · intro j hj
    rw [htable]
    split_ifs
    · simpa using htd
    · exact h.ne_dir j hj
  · intro g hg
    refine ⟨(h.fresh g (hrest g hg)).1, fun j hj => ?_⟩
    rw [htable]
    split_ifs
    · rintro heq
      rw [Option.some.inj heq] at hnodup
      exact (List.nodup_cons.mp hnodup).1 hg
    · exact (h.fresh g (hrest g hg)).2 j hj
  · intro v hv
    by_cases hvi : v / 1024 = i
    · have hnew : (s.tabled d i t l).table d (v / 1024) = some t := by rw [htable, if_pos hvi]
      rw [entry_of_table hnew, entry_of_no_table (by rw [hvi]; exact hnone),
        State.word, State.tabled,
        State.setWord_ne htd, State.setPage_same]
      rfl
    · have hold : (s.tabled d i t l).table d (v / 1024) = s.table d (v / 1024) := by
        rw [htable, if_neg hvi]
      cases ht' : s.table d (v / 1024) with
      | none => rw [entry_of_no_table ht', entry_of_no_table (hold.trans ht')]
      | some t' =>
        have hne : t' ≠ d := by
          rintro rfl
          exact h.ne_dir _ (div_lt_tables hv) ht'
        have hne' : t' ≠ t := by
          rintro rfl
          exact hfresh _ (div_lt_tables hv) ht'
        rw [entry_of_table ht', entry_of_table (hold.trans ht'),
          State.word_congr (tabled_page hne hne')]

lemma Space.apart (h : Space sy T R d s) : Apart d s where
  inj _ hi _ hj _ hti htj := h.table_inj hi hj hti htj
  ne_dir _ hi ht := h.table_ne_dir hi ht rfl
  nodup := List.nodup_iff_count_le_one.mpr fun g => by
    have : _ + (_ + _) ≤ 1 := Own.le_one h g
    omega
  lt g hg := (Own.valid_of_free h hg).lt.trans (by decide)
  fresh g hg := by
    have hzero := Own.not_free h hg
    refine ⟨?_, fun i hi ht => ?_⟩
    · rintro rfl
      have := mass_dir s g
      omega
    · have := mass_table hi ht
      omega

/-- A new page table adds its page to the address space, and no mapping. -/
lemma Space.tabled (h : Space sy T R d s) (hi : i < NPDENTRIES) (hnone : s.table d i = none)
    (hf : s.fs.freelist = t :: l) :
    Space sy T R d (s.tabled d i t l) ∧ Frame R s (s.tabled d i t l) ∧
      (∀ j, (s.tabled d i t l).table d j = if j = i then some t else s.table d j) ∧
      ∀ v < NPAGES, (s.tabled d i t l).pte d v = s.pte d v := by
  have hmem : t ∈ s.fs.freelist := by rw [hf]; exact List.mem_cons_self
  have hzero := Own.not_free h hmem
  obtain ⟨-, htable, hentry⟩ := h.apart.tabled hnone hf
  have hpte : ∀ v < NPAGES, (s.tabled d i t l).pte d v = s.pte d v := fun v hv => by
    rw [pte_eq, pte_eq, hentry v hv]
  refine ⟨⟨fun g => ?_, h.once, h.valid⟩,
    ⟨rfl, rfl, fun g hg => tabled_page ?_ ?_, rfl⟩, htable, hpte⟩
  · have hcount := h.count g
    have hm := mass_table_change (u := s.tabled d i t l) hi
      (fun j _ hj => by rw [htable, if_neg hj])
      (fun v hv => hpte v (hv.trans (by decide))) g
    rw [hnone, htable, if_pos rfl] at hm
    rw [hf, count_cons_single] at hcount
    simp only [Option.toList_none, Option.toList_some, List.count_nil] at hm
    change l.count g + _ = _
    omega
  · rintro rfl
    have := h.rest_zero (mass_dir s g)
    omega
  · rintro rfl
    omega

/-- Storing an entry changes the mapping of one page. -/
lemma Space.pte_setWord (h : Space sy T R d s) (hv : v < NPAGES)
    (ht : s.table d (v / 1024) = some t)
    (he : e < 2 ^ 32) :
    (∀ j, (s.setWord t (v % 1024) e).table d j = s.table d j) ∧
      ∀ w < NPAGES, (s.setWord t (v % 1024) e).pte d w = if w = v then valid e else s.pte d w := by
  obtain ⟨htable, hentry⟩ := h.apart.entry_setWord hv ht he
  refine ⟨htable, fun w hw => ?_⟩
  rw [pte_eq, pte_eq, hentry w hw]
  exact apply_ite ..

/-- A page in hand is mapped in the user part. -/
lemma Space.map (h : Space sy T (plus R g) d s) (hv : v < NUSER)
    (ht : s.table d (v / 1024) = some t) (hnone : s.pte d v = none) {f : Nat} (hf : f < PGSIZE)
    (hodd : f % 2 = 1) :
    Space sy T R d (s.setWord t (v % 1024) (PGSIZE * g + f)) := by
  have hvp : v < NPAGES := hv.trans (by decide)
  have hvalid : sy.Valid g := Own.valid_of_pos h (by rw [plus_same]; omega)
  have hlt : PGSIZE * g + f < 2 ^ 32 := by
    have := hvalid.lt
    simp only [PGSIZE, NUSER] at *
    omega
  obtain ⟨htable, hpte⟩ := h.pte_setWord hvp ht hlt
  have hnew : (s.setWord t (v % 1024) (PGSIZE * g + f)).leaf d v = some g := by
    rw [State.leaf, hpte v hvp, if_pos rfl, valid_of_present (present_page g hodd), Option.map_some,
      frame_add g hf]
  refine ⟨fun x => ?_, h.once, h.valid⟩
  have hcount := h.count x
  have hm := mass_change (u := s.setWord t (v % 1024) (PGSIZE * g + f)) hv (fun i _ => htable i)
    (fun w hw hne => by rw [hpte w (hw.trans (by decide)), if_neg hne]) x
  rw [hnew, State.leaf, hnone] at hm
  simp only [Option.map_none, Option.toList_none, Option.toList_some, List.count_nil] at hm
  unfold plus at hcount
  rw [State.setWord_fs]
  omega

/-- A page of the kernel part is mapped. -/
lemma Space.mapKernel (h : Space sy T R d s) (hv : v < NPAGES) (hk : NUSER ≤ v)
    (ht : s.table d (v / 1024) = some t) (he : e < 2 ^ 32) :
    Space sy T R d (s.setWord t (v % 1024) e) := by
  obtain ⟨htable, hpte⟩ := h.pte_setWord hv ht he
  refine Own.congr h (fun g => ?_) rfl
  rw [mass_congr (fun i _ => htable i) fun w hw => by
    rw [hpte w (hw.trans (by decide)), if_neg (by omega)]]

/-- A page of the user part is freed and its entry cleared. -/
lemma Space.unmap (h : Space sy T R d s) (hv : v < NUSER) (ht : s.table d (v / 1024) = some t)
    (hg : s.leaf d v = some g) :
    Space sy T R d ((s.freed g).setWord t (v % 1024) 0) ∧
      Frame R s ((s.freed g).setWord t (v % 1024) 0) ∧
      (∀ j, ((s.freed g).setWord t (v % 1024) 0).table d j = s.table d j) ∧
      ∀ w < NPAGES, ((s.freed g).setWord t (v % 1024) 0).pte d w =
        if w = v then none else s.pte d w := by
  have hvp : v < NPAGES := hv.trans (by decide)
  have hgd := h.leaf_ne_dir hv hg
  have htg := h.leaf_ne_table hv hg (div_lt_tables hvp) ht
  -- first the entry is cleared, then the page is freed: the two stores are to different pages
  have hswap : (s.freed g).setWord t (v % 1024) 0 = (s.setWord t (v % 1024) 0).freed g := by
    unfold State.freed State.setWord State.setPage State.setFree
    simp only [upd_ne htg]
    congr 1
    funext x
    unfold upd
    split_ifs <;> simp_all
  obtain ⟨htable, hpte⟩ := h.pte_setWord hvp ht (e := 0) (by decide)
  have hplus : Own sy T (plus (fun x => (s.setWord t (v % 1024) 0).mass d x + R x) g)
      (s.setWord t (v % 1024) 0) := by
    refine ⟨fun x => ?_, h.once, h.valid⟩
    have hcount := h.count x
    have hm := mass_change (u := s.setWord t (v % 1024) 0) hv (fun i _ => htable i)
      (fun w hw hne => by rw [hpte w (hw.trans (by decide)), if_neg hne]) x
    rw [hg, State.leaf, hpte v hvp, if_pos rfl, valid_zero] at hm
    simp only [Option.map_none, Option.toList_none, Option.toList_some, List.count_nil] at hm
    simp only [plus, State.setWord_fs]
    omega
  have hmassg : R g = 0 := h.rest_zero (mass_leaf hv hg)
  have hmasst : R t = 0 := h.rest_zero (mass_table (div_lt_tables hvp) ht)
  -- freeing does not change the views
  have hpage : ∀ x, x ≠ g → ((s.setWord t (v % 1024) 0).freed g).page x =
      (s.setWord t (v % 1024) 0).page x := fun x hx => State.setPage_ne hx
  have htab' : ∀ j, ((s.setWord t (v % 1024) 0).freed g).table d j = s.table d j := fun j => by
    rw [table_congr (hpage d (Ne.symm hgd)), htable]
  have hpte' : ∀ w < NPAGES, ((s.setWord t (v % 1024) 0).freed g).pte d w =
      if w = v then none else s.pte d w := fun w hw => by
    rw [pte_congr (hpage d (Ne.symm hgd)) (fun i hi t' ht' => hpage t' ?_) hw,
      hpte w hw, valid_zero]
    rw [htable] at ht'
    exact h.leaf_ne_table hv hg hi ht'
  rw [hswap]
  refine ⟨?_, ?_, htab', hpte'⟩
  · refine Own.congr hplus.freed (fun x => ?_) rfl
    rw [mass_congr (fun i _ => (htab' i).trans (htable i).symm) fun w hw => ?_]
    rw [hpte' w (hw.trans (by decide)), hpte w (hw.trans (by decide)), valid_zero]
  · exact ((frame_setWord hmasst).trans (frame_setPage hmassg)).trans (frame_setFree R _ _)

end Walk

end Xv6.Vm
