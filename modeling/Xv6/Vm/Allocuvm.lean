import Xv6.Vm.Deallocuvm

/-!
# Growing when pages are refused

`allocuvm` asks `kalloc` for a page, then, inside `mappages`, for a page table if one is missing. It
looks at the first answer and not at the second: a call that is refused a page is undone, one that
is refused a page table goes on with the page lost and not mapped. -/

namespace Xv6.Vm

open Lib Prog

/-! ### What is asked for -/

/-- What a page is asked for. -/
inductive Need
  | stack
  | dir
  | page
  | table
  deriving DecidableEq, Repr

/-- The page tables that are there. -/
def State.tables (s : State) (d : Nat) : Nat → Bool := fun j => (s.table d j).isSome

/-- What `allocuvm` asks for, for `n` pages from page `v` on, when the tables `tab` are there and no
request is refused. -/
def needs (tab : Nat → Bool) (v : Nat) : Nat → List Need
  | 0 => []
  | n + 1 => .page :: ((if tab (v / 1024) then [] else [.table]) ++
      needs (upd tab (v / 1024) true) (v + 1) n)

/-- Each page between `oldsz` and `newsz` is mapped to a page of its own that was free and is zero,
and no other mapping has changed. -/
def Enlarged (d oldsz newsz : Nat) (s s' : State) : Prop :=
  (∀ v, PGROUNDUP oldsz ≤ PGSIZE * v → PGSIZE * v < newsz → ∃ g ∈ s.fs.freelist,
    s'.pte d v = some (PGSIZE * g ||| (PTE_W ||| PTE_U) ||| PTE_P) ∧ s'.page g = (fun _ => 0) ∧
    ∀ w < NUSER, s'.leaf d w = some g → w = v) ∧
  ∀ v < NPAGES, ¬ (PGROUNDUP oldsz ≤ PGSIZE * v ∧ PGSIZE * v < newsz) → s'.pte d v = s.pte d v

/-- The user part is mapped as it was, and the pages that were free are free, or page tables. -/
def Undone (d : Nat) (s s' : State) : Prop :=
  (∀ v < NUSER, s'.pte d v = s.pte d v) ∧
    ∀ g ∈ s.fs.freelist, g ∈ s'.fs.freelist ∨ ∃ j < NPDENTRIES, s'.table d j = some g

/-- `allocuvm(d, oldsz, newsz)` tells the truth when `kalloc` is refused as `bs` says: it returns
`newsz` with the new pages mapped, or 0 with all undone. -/
def AllocTruth (sy : Symbols) (d oldsz newsz : Nat) (s : State) (bs : List Bool) : Prop :=
  ∃ r s' bs', (refusing (allocuvm sy d oldsz newsz)).run (s, bs) = .ok r (s', bs') ∧
    (r = newsz ∧ Enlarged d oldsz newsz s s' ∨ r = 0 ∧ Undone d s s')

/-- The pages `v`, …, `v + m - 1` are mapped to pages that were free and now have the contents `c`,
and all else is as before. -/
structure Paged (R : Nat → Nat) (c : Nat → Bytes) (d v m : Nat) (s s' : State) : Prop where
  frame : Frame R s s'
  new : ∀ w, v ≤ w → w < v + m → ∃ g ∈ s.fs.freelist,
    s'.pte d w = some (PGSIZE * g + 7) ∧ s'.page g = c w
  old : ∀ w < NPAGES, ¬ (v ≤ w ∧ w < v + m) → s'.pte d w = s.pte d w
  table : ∀ j, s.table d j ≠ none → s'.table d j ≠ none
  user : SameUser d s s'
  free : s'.fs.freelist ⊆ s.fs.freelist

/-- Pages of zeros. -/
abbrev zero : Nat → Bytes := fun _ _ => 0

/-- What becomes of a loop that finds no page table when no page is left: after the first `m` pages
nothing more happens, and it succeeds if the next page was the last one. -/
structure Starved (R : Nat → Nat) (d v n m : Nat) (s : State) (r : Bool) (s' : State) : Prop where
  paged : Paged R zero d v m s s'
  last : r = true ↔ m + 1 = n
  short : r = true ↔ s.fs.freelist.length + 1 = (needs (s.tables d) v n).length

/-- How the loop over `n` pages ends: there was all it needed, a page was refused, or first of all a
page table. -/
inductive AllocEnd (sy : Symbols) (T R : Nat → Nat) (d v n : Nat) (s : State) (bs : List Bool) :
    Bool → State → Prop
  | all {s' : State} (hneed : (needs (s.tables d) v n)[granted bs s.fs.freelist.length]? = none)
      (h : Space sy T R d s') (hz : Paged R zero d v n s s') (hs : s'.failed = s.failed) :
      AllocEnd sy T R d v n s bs true s'
  | page {s' : State} {m : Nat}
      (hneed : (needs (s.tables d) v n)[granted bs s.fs.freelist.length]? = some .page)
      (h : Space sy T R d s') (hm : m < n) (hz : Paged R zero d v m s s') (hs : s'.failed = true) :
      AllocEnd sy T R d v n s bs false s'
  | table {s' : State} {r : Bool} {P : Nat → Nat} {g m : Nat}
      (hneed : (needs (s.tables d) v n)[granted bs s.fs.freelist.length]? = some .table)
      (hP : ∀ x, R x ≤ P x) (h : Space sy T P d s') (hg : g ∈ s.fs.freelist) (hPg : 0 < P g)
      (hm : m < n) (hnone : s'.pte d (v + m) = none)
      (hold : ∀ x < NPAGES, ¬ (v ≤ x ∧ x < v + n) → s'.pte d x = s.pte d x) (hs : s'.failed = true)
      (hstuck : granted bs s.fs.freelist.length = s.fs.freelist.length → Starved R d v n m s r s') :
      AllocEnd sy T R d v n s bs r s'

section Loop

variable {sy : Symbols} {T R : Nat → Nat} {s s' s'' : State} {d v n m g e newsz oldsz : Nat}
  {bs bs' : List Bool} {r : Bool} {l : List Nat}

lemma Paged.refl (R : Nat → Nat) (c : Nat → Bytes) : Paged R c d v 0 s s :=
  ⟨Frame.refl R s, fun _ _ _ => by omega, fun _ _ _ => rfl, fun _ h => h, fun _ _ _ _ => rfl,
    fun _ h => h⟩

/-- Whatever happens, pages can only be lost, and no page outside the range is mapped. -/
lemma Paged.mapped {c : Nat → Bytes} {m w : Nat} (hz : Paged R c d v m s s') (hw : v ≤ w)
    (hwm : w < v + m) : s'.pte d w ≠ none := by
  obtain ⟨g, -, hpte, -⟩ := hz.new w hw hwm
  simp [hpte]

lemma AllocEnd.space (h : AllocEnd sy T R d v n s bs r s') :
    ∃ P, (∀ x, R x ≤ P x) ∧ Space sy T P d s' ∧
      ∀ x < NPAGES, ¬ (v ≤ x ∧ x < v + n) → s'.pte d x = s.pte d x := by
  cases h with
  | all _ h hz _ => exact ⟨R, fun _ => le_rfl, h, hz.old⟩
  | page _ h hm hz _ => exact ⟨R, fun _ => le_rfl, h, fun x hx hout => hz.old x hx (by omega)⟩
  | table _ hP h _ _ _ _ hold => exact ⟨_, hP, h, hold⟩

lemma AllocEnd.failed (h : AllocEnd sy T R d v n s bs r s') (hs : s.failed = true) :
    s'.failed = true := by
  cases h with
  | all _ _ _ hs' => exact hs'.trans hs
  | page _ _ _ _ hs' => exact hs'
  | table _ _ _ _ _ _ _ _ hs' => exact hs'

/-- Without free pages the loop does nothing. -/
lemma AllocEnd.stuck (h : AllocEnd sy T R d v n s bs r s') (hfree : s.fs.freelist = []) :
    Paged R zero d v 0 s s' ∧ (r = true ↔ n = 0) := by
  have hneeds : (needs (s.tables d) v n)[granted bs s.fs.freelist.length]? =
      if n = 0 then none else some .page := by
    rw [hfree]
    cases n <;> rfl
  cases h with
  | all hneed _ hz _ =>
    obtain rfl : n = 0 := by
      by_contra h0
      rw [hneeds, if_neg h0] at hneed
      cases hneed
    exact ⟨hz, by simp⟩
  | @page _ m _ _ hm hz _ =>
    obtain rfl : m = 0 := by
      by_contra h0
      obtain ⟨g, hg, -⟩ := hz.new v le_rfl (by omega)
      rw [hfree] at hg
      cases hg
    exact ⟨hz, iff_of_false (by simp) (by omega)⟩
  | table hneed =>
    rw [hneeds] at hneed
    split_ifs at hneed
    cases hneed

/-- Page `v` was mapped to page `g`, which was the first free one and has the contents `b`. -/
structure Added (R : Nat → Nat) (b : Bytes) (d v g : Nat) (s s' : State) : Prop where
  frame : Frame R s s'
  mem : g ∈ s.fs.freelist
  pte : ∀ w < NPAGES, s'.pte d w = if w = v then some (PGSIZE * g + 7) else s.pte d w
  page : s'.page g = b
  user : SameUser d s s'
  tables : s'.tables d = upd (s.tables d) (v / 1024) true
  free : s'.fs.freelist ⊆ s.fs.freelist
  length : s.fs.freelist.length = s'.fs.freelist.length + 1 +
    if s.table d (v / 1024) = none then 1 else 0
  failed : s'.failed = s.failed

lemma Added.table {b : Bytes} (ha : Added R b d v g s s') {j : Nat} (hj : s.table d j ≠ none) :
    s'.table d j ≠ none := by
  have h := congrFun ha.tables j
  unfold upd at h
  split_ifs at h with hjv
  · exact Option.isSome_iff_ne_none.mp h
  · exact Option.isSome_iff_ne_none.mp (h.trans (Option.isSome_iff_ne_none.mpr hj))

lemma Added.paged {c : Nat → Bytes} (ha : Added R (c v) d v g s s') (hv : v < NUSER)
    (hnone : s.pte d v = none) (hz : Paged R c d (v + 1) m s' s'') :
    Paged R c d v (m + 1) s s'' where
  frame := ha.frame.trans hz.frame
  new w hw hw' := by
    rcases Nat.eq_or_lt_of_le hw with rfl | hlt
    · have hvp : v < NPAGES := hv.trans (by decide)
      have hpte : s'.pte d v = some (PGSIZE * g + 7) := by rw [ha.pte v hvp, if_pos rfl]
      have hleaf : s'.leaf d v = some g := by
        rw [State.leaf, hpte, Option.map_some, frame_add g (by decide)]
      exact ⟨g, ha.mem, (hz.old v hvp (by omega)).trans hpte, (hz.user v hv g hleaf).trans ha.page⟩
    · obtain ⟨x, hx, hpte, hpage⟩ := hz.new w (by omega) (by omega)
      exact ⟨x, ha.free hx, hpte, hpage⟩
  old w hw hout := by rw [hz.old w hw (by omega), ha.pte w hw, if_neg (by omega)]
  table _ hj := hz.table _ (ha.table hj)
  user w hw x hx := by
    have hne : w ≠ v := by
      rintro rfl
      rw [State.leaf, hnone] at hx
      exact absurd hx (by simp)
    have hx' : s'.leaf d w = some x := by
      rw [leaf_congr ((ha.pte w (hw.trans (by decide))).trans (if_neg hne)), hx]
    exact (hz.user w hw x hx').trans (ha.user w hw x hx)
  free := fun _ hx => ha.free (hz.free hx)

/-- The requests for the first page are granted. -/
lemma Added.needs {b : Bytes} (ha : Added R b d v g s s') {k k' : Nat}
    (hk : k = k' + 1 + if s.table d (v / 1024) = none then 1 else 0) :
    (needs (s.tables d) v (n + 1))[k]? = (needs (s'.tables d) (v + 1) n)[k']? := by
  rw [Vm.needs, ← ha.tables, hk]
  cases ht : s.table d (v / 1024) with
  | none => simp [State.tables, ht]
  | some t => simp [State.tables, ht]

lemma Added.length_needs {b : Bytes} (ha : Added R b d v g s s') :
    (Vm.needs (s.tables d) v (n + 1)).length = (Vm.needs (s'.tables d) (v + 1) n).length + 1 +
      if s.table d (v / 1024) = none then 1 else 0 := by
  rw [Vm.needs, ← ha.tables]
  cases ht : s.table d (v / 1024) with
  | none => simp [State.tables, ht]
  | some t => simp [State.tables, ht]

/-- The end of the rest is the end of the whole. -/
lemma Added.step (ha : Added R (zero v) d v g s s') (hv : v < NUSER) (hnone : s.pte d v = none)
    (hg : granted bs s.fs.freelist.length = granted bs' s'.fs.freelist.length + 1 +
      if s.table d (v / 1024) = none then 1 else 0)
    (he : AllocEnd sy T R d (v + 1) n s' bs' r s'') : AllocEnd sy T R d v (n + 1) s bs r s'' := by
  have hneed := ha.needs (n := n) hg
  have hlen := ha.length
  have hlen' := ha.length_needs (n := n)
  cases he with
  | all h1 h hz hs => exact .all (hneed.trans h1) h (ha.paged hv hnone hz) (hs.trans ha.failed)
  | page h1 h hm hz hs =>
    exact .page (hneed.trans h1) h (Nat.succ_lt_succ hm) (ha.paged hv hnone hz) hs
  | table h1 hP h hg' hPg hm hno hold hs hstuck =>
    rename_i m
    refine .table (m := m + 1) (hneed.trans h1) hP h (ha.free hg') hPg (Nat.succ_lt_succ hm) ?_
      (fun x hx hout => ?_) hs fun hall => ?_
    · rwa [show v + (m + 1) = v + 1 + m by omega]
    · rw [hold x hx (by omega), ha.pte x hx, if_neg (by omega)]
    · have hst := hstuck (by omega)
      exact ⟨ha.paged hv hnone hst.paged, hst.last.trans (by omega), hst.short.trans (by omega)⟩

lemma Mapped.tables (hm : Mapped R d v e s s') :
    s'.tables d = upd (s.tables d) (v / 1024) true := by
  funext j
  by_cases hj : j = v / 1024
  · have : s'.table d j ≠ none := fun h => ((hm.table j).mp h).1 hj
    rw [hj, upd_same, ← hj]
    exact Option.isSome_iff_ne_none.mpr this
  · have : s'.table d j = none ↔ s.table d j = none := (hm.table j).trans (and_iff_right hj)
    rw [upd_ne hj]
    unfold State.tables
    rw [Bool.eq_iff_iff, Option.isSome_iff_ne_none, Option.isSome_iff_ne_none, ne_eq, this]

/-- The first page is taken off the free list and filled. -/
lemma Space.filled (h : Space sy T R d s) (hf : s.fs.freelist = g :: l) (b : Bytes) :
    Space sy T (plus R g) d ((s.setFree l).setPage g b) ∧ Frame R s ((s.setFree l).setPage g b) ∧
      (∀ j, ((s.setFree l).setPage g b).table d j = s.table d j) ∧
      (∀ w < NPAGES, ((s.setFree l).setPage g b).pte d w = s.pte d w) ∧
      SameUser d s ((s.setFree l).setPage g b) := by
  have hmem : g ∈ s.fs.freelist := by rw [hf]; exact List.mem_cons_self
  have hzero := Own.not_free h hmem
  obtain ⟨h1, hfr, htable, hpte⟩ := (h.take hf).setPage b
  refine ⟨h1, (frame_setFree R s l).trans hfr, htable, hpte, fun w hw x hx => State.setPage_ne ?_⟩
  rintro rfl
  have := mass_leaf hw hx
  omega

/-- The page that was taken and filled is mapped. -/
lemma Mapped.added {b : Bytes} (h : Space sy T R d s) (hf : s.fs.freelist = g :: l)
    (hm : Mapped R d v (PGSIZE * g + 7) ((s.setFree l).setPage g b) s')
    (hu : SameUser d ((s.setFree l).setPage g b) s')
    (hp : s'.page g = ((s.setFree l).setPage g b).page g) : Added R b d v g s s' := by
  obtain ⟨-, hfr, htable, hpte, huser⟩ := h.filled hf b
  refine ⟨hfr.trans hm.frame, by rw [hf]; exact List.mem_cons_self, fun w hw => ?_,
    hp.trans State.setPage_same, fun w hw x hx => ?_, ?_, ?_, ?_, hm.failed⟩
  · rw [hm.pte w hw, hpte w hw]
  · have hx1 : ((s.setFree l).setPage g b).leaf d w = some x := by
      rw [leaf_congr (hpte w (hw.trans (by decide))), hx]
    exact (hu w hw x hx1).trans (huser w hw x hx)
  · rw [hm.tables]
    unfold State.tables
    simp only [htable]
  · rw [hm.free, hf]
    exact fun x hx => List.mem_cons_of_mem _ (List.mem_of_mem_drop hx)
  · have hl : l.length = _ := hm.length
    rw [← htable, hf, List.length_cons, hl]
    omega

end Loop

section Call

variable {sy : Symbols} {T R : Nat → Nat} {s s' : State} {d v n newsz oldsz : Nat} {bs : List Bool}
  {E : Option Panic → State × List Bool → Prop}

/-- The loop ends where the first `kalloc` fails. -/
lemma wp_refusing_allocuvmLoop {Q : Bool → State × List Bool → Prop} {fuel : Nat}
    (hn : pages newsz = v + n) (hfuel : n ≤ fuel) (hbound : v + n ≤ NUSER) (h : Space sy T R d s)
    (hfresh : ∀ w, v ≤ w → w < v + n → s.pte d w = none)
    (hQ : ∀ r s' bs', AllocEnd sy T R d v n s bs r s' → Q r (s', bs')) :
    (refusing (allocuvmLoop d newsz (PGSIZE * v) fuel)).wp Q E (s, bs) := by
  induction fuel generalizing n v s bs R with
  | zero =>
    obtain rfl : n = 0 := by omega
    exact hQ true s bs (.all rfl h (Paged.refl R zero) rfl)
  | succ fuel ih =>
    rw [allocuvmLoop]
    cases n with
    | zero =>
      rw [if_neg fun hlt => by have := lt_pages.mpr hlt; omega]
      exact hQ true s bs (.all rfl h (Paged.refl R zero) rfl)
    | succ n =>
      have hv : v < NUSER := by omega
      have hvp : v < NPAGES := hv.trans (by decide)
      have hnone := hfresh v le_rfl (by omega)
      rw [if_pos (lt_pages.mp (by omega)), refusing_bind]
      refine wp_bind.mpr (wp_refusing_kalloc (fun g l hf hg => ?_) fun hg => ?_)
      · obtain ⟨h1, hfr, htable, hpte, huser⟩ := h.filled hf (zero v)
        simp only [refusing_bind, wp_refusing_memset]
        rw [next_page (by unfold NUSER NPAGES at *; omega)]
        refine wp_bind.mpr (wp_refusing_mapUser h1 hv ((hpte v hvp).trans hnone)
          (fun s2 bs2 h2 hm hu2 hpage hg2 => ?_) fun ht hg1 => ?_)
        · have ha := hm.added h hf hu2 hpage
          refine ih (n := n) (by omega) (by omega) (by omega) h2 (fun w hw hw' => ?_)
            fun r s' bs' he => hQ r s' bs' (ha.step hv hnone ?_ he)
          · have hwp : w < NPAGES := by simp only [NUSER, NPAGES] at *; omega
            rw [ha.pte w hwp, if_neg (by omega)]
            exact hfresh w (by omega) (by omega)
          · change granted bs.tail l.length = _ + if ((s.setFree l).setPage g (zero v)).table d
              (v / 1024) = none
              then 1 else 0 at hg2
            rw [htable] at hg2
            omega
        · -- the page is lost: from here on it counts among the pages of others
          rw [htable] at ht
          change granted bs.tail l.length = 0 at hg1
          refine ih (n := n) (R := plus R g) (by omega) (by omega) (by omega) (h1.congr rfl rfl)
            (fun w hw hw' => ?_) fun r s' bs' he => hQ r s' bs' ?_
          · have hwp : w < NPAGES := by simp only [NUSER, NPAGES] at *; omega
            exact (hpte w hwp).trans (hfresh w (by omega) (by omega))
          · obtain ⟨P, hP, hs', hold⟩ := he.space
            have hpos : 0 < P g := lt_of_lt_of_le (by rw [plus_same]; omega) (hP g)
            refine .table (m := 0) ?_ (fun x => (le_plus R g x).trans (hP x)) hs'
              (by rw [hf]; exact List.mem_cons_self) hpos (Nat.succ_pos n) ?_ (fun x hx hout => ?_)
              (he.failed rfl) fun hall => ?_
            · rw [hg, hg1, needs]
              simp [State.tables, ht]
            · exact (hold v hvp (by omega)).trans ((hpte v hvp).trans hnone)
            · exact (hold x hx (by omega)).trans (hpte x hx)
            · -- that was the last free page
              have hlen : s.fs.freelist.length = 1 := by omega
              obtain rfl : l = [] := by simpa [hf] using hlen
              obtain ⟨hz, hr⟩ := he.stuck rfl
              refine ⟨⟨?_, fun _ _ _ => by omega, fun x hx _ => ?_, fun j hj => hz.table j ?_,
                fun x hx y hy => ?_, fun x hx => absurd (hz.free hx) List.not_mem_nil⟩,
                by rw [hr]; omega, ?_⟩
              · exact (hfr.trans (frame_failed R _)).trans (hz.frame.mono fun x hx =>
                  hx.trans_le (le_plus R g x))
              · exact (hz.old x hx (by omega)).trans (hpte x hx)
              · exact fun hj' => hj ((htable j).symm.trans hj')
              · have hy' : ((s.setFree []).setPage g (zero v)).leaf d x = some y := by
                  rw [leaf_congr (hpte x (hx.trans (by decide))), hy]
                exact (hz.user x hx y hy').trans (huser x hx y hy)
              · rw [hr, hlen, needs]
                cases n <;> simp [State.tables, ht, needs]
      · refine hQ false _ _ (.page (m := 0) ?_ (h.congr rfl rfl) (Nat.succ_pos n) ?_ rfl)
        · rw [hg]
          rfl
        · exact ⟨frame_failed R s, fun _ _ _ => by omega, fun _ _ _ => rfl, fun _ hj => hj,
            fun _ _ _ _ => rfl, fun _ hx => hx⟩

/-! ### Nothing else is asked for -/

lemma silent_walkpgdir (d va : Nat) :
    (walkpgdir d va false).silent fun l => decide (l = .kalloc) := by
  refine silent_bind ⟨rfl, fun _ => trivial⟩ fun pde => ?_
  split_ifs <;> trivial

lemma silent_kfree (sy : Symbols) (g : Nat) :
    (kfree sy g).silent fun l => decide (l = .kalloc) := by
  unfold kfree
  split_ifs
  · trivial
  · exact ⟨rfl, fun _ => ⟨rfl, fun _ => trivial⟩⟩

lemma silent_deallocuvmLoop (sy : Symbols) (d oldsz : Nat) :
    ∀ n a, (deallocuvmLoop sy d oldsz a n).silent fun l => decide (l = .kalloc)
  | 0, _ => trivial
  | n + 1, a => by
    rw [deallocuvmLoop]
    split_ifs
    · refine silent_bind (silent_walkpgdir d a) fun r => ?_
      cases r with
      | none => exact silent_deallocuvmLoop sy d oldsz n _
      | some x =>
        refine silent_bind ⟨rfl, fun _ => trivial⟩ fun pte => ?_
        split_ifs
        · trivial
        · exact silent_bind (silent_kfree sy _) fun _ =>
            ⟨rfl, fun _ => silent_deallocuvmLoop sy d oldsz n _⟩
        · exact silent_deallocuvmLoop sy d oldsz n _
    · trivial

lemma silent_deallocuvm (sy : Symbols) (d oldsz newsz : Nat) :
    (deallocuvm sy d oldsz newsz).silent fun l => decide (l = .kalloc) := by
  unfold deallocuvm
  split_ifs
  · trivial
  · exact silent_bind (silent_deallocuvmLoop ..) fun _ => trivial

/-- `deallocuvm` is not disturbed by refusals. -/
lemma wp_refusing_deallocuvm {Q : Nat → State × List Bool → Prop} (h : Space sy T R d s)
    (hP : oldsz ≤ KERNBASE) (hlt : newsz < oldsz)
    (hQ : ∀ s', Space sy T R d s' → Swept R d (pages newsz) (pages oldsz) s s' → Q newsz (s', bs)) :
    (refusing (deallocuvm sy d oldsz newsz)).wp Q E (s, bs) := by
  refine wp_mono (wp_refuse_silent (silent_deallocuvm sy d oldsz newsz)
    (wp_deallocuvm_swept (E := fun _ _ => False)
    (Q := fun r s' => r = newsz ∧ Space sy T R d s' ∧ Swept R d (pages newsz) (pages oldsz) s s')
    h hP hlt fun s' h' hs => ⟨rfl, h', hs⟩)) ?_ fun _ _ hf => hf.elim
  rintro r ⟨s', bs'⟩ ⟨⟨rfl, h', hs⟩, rfl⟩
  exact hQ s' h' hs

/-- How `allocuvm` ends. -/
inductive CallEnd (sy : Symbols) (T R : Nat → Nat) (d oldsz newsz : Nat) (s : State)
    (bs : List Bool) :
    Option Need → Nat → State → Prop
  | all {s' : State} (h : Space sy T R d s')
      (hz : Paged R zero d (pages oldsz) (pages newsz - pages oldsz) s s')
        (hs : s'.failed = s.failed) :
      CallEnd sy T R d oldsz newsz s bs none newsz s'
  | page {s' : State} (h : Space sy T R d s') (hf : Frame R s s')
      (hpte : ∀ w < NPAGES, s'.pte d w = s.pte d w) (hs : s'.failed = true) :
      CallEnd sy T R d oldsz newsz s bs (some .page) 0 s'
  | unmapped {s' : State} {m : Nat} (hm : pages oldsz + m < pages newsz)
      (hnone : s'.pte d (pages oldsz + m) = none) (hs : s'.failed = true)
      (hstuck : granted bs s.fs.freelist.length = s.fs.freelist.length →
        Paged R zero d (pages oldsz) m s s' ∧ m + 1 = pages newsz - pages oldsz ∧
        s.fs.freelist.length + 1 =
          (needs (s.tables d) (pages oldsz) (pages newsz - pages oldsz)).length) :
      CallEnd sy T R d oldsz newsz s bs (some .table) newsz s'
  | lost {s' : State} {P : Nat → Nat} {g : Nat} (h : Space sy T P d s') (hg : g ∈ s.fs.freelist)
      (hPg : 0 < P g) (hlt : oldsz < newsz) (hs : s'.failed = true)
      (hstuck : granted bs s.fs.freelist.length = s.fs.freelist.length →
        Frame R s s' ∧ (∀ w < NPAGES, s'.pte d w = s.pte d w) ∧ s.fs.freelist.length + 1 ≠
          (needs (s.tables d) (pages oldsz) (pages newsz - pages oldsz)).length) :
      CallEnd sy T R d oldsz newsz s bs (some .table) 0 s'

/-- The pages mapped so far are the first ones, so `deallocuvm` misses none of them. -/
lemma Paged.undone {P : Nat → Nat} {s1 : State} {m : Nat} (hz : Paged R zero d (pages oldsz) m s s1)
    (hm : pages oldsz + m ≤ pages newsz) (hbound : pages newsz ≤ NUSER)
    (hfresh : ∀ w, pages oldsz ≤ w → w < NUSER → s.pte d w = none) (hP : ∀ x, R x ≤ P x)
    (hs : Swept P d (pages oldsz) (pages newsz) s1 s') :
    Frame R s s' ∧ ∀ w < NPAGES, s'.pte d w = s.pte d w := by
  have hskip : Skips s1 d (pages oldsz) := by
    intro ht
    refine .inr fun w hw hwu => ?_
    by_cases hin : w < pages oldsz + m
    · obtain ⟨g, -, hpte, -⟩ := hz.new (pages oldsz) le_rfl (by omega)
      rw [pte_of_no_table ht] at hpte
      exact absurd hpte (by simp)
    · rw [hz.old w (hwu.trans (by decide)) (by omega)]
      exact hfresh w hw hwu
  have hc := hs.cut fun w hw hwP hmiss => hskip.pte_of_missed hw (by omega) hmiss
  refine ⟨hz.frame.trans (hc.frame.mono fun x hx => hx.trans_le (hP x)), fun w hw => ?_⟩
  rw [hc.pte w hw]
  split_ifs with hin
  · exact (hfresh w hin.1 (by omega)).symm
  · exact hz.old w hw (by omega)

lemma wp_refusing_allocuvm {Q : Nat → State × List Bool → Prop} (h : Space sy T R d s)
    (hnew : newsz < KERNBASE) (hle : oldsz ≤ newsz)
    (hfresh : ∀ w, pages oldsz ≤ w → w < NUSER → s.pte d w = none)
    (hQ : ∀ r s' bs', CallEnd sy T R d oldsz newsz s bs
      (needs (s.tables d) (pages oldsz)
        (pages newsz - pages oldsz))[granted bs s.fs.freelist.length]? r s' →
      Q r (s', bs')) :
    (refusing (allocuvm sy d oldsz newsz)).wp Q E (s, bs) := by
  have hpages := pages_mono hle
  have hbound : pages newsz ≤ NUSER := pages_le (by omega)
  rw [allocuvm, if_neg (by omega), if_neg (by omega), PGROUNDUP_eq (by omega), refusing_bind]
  refine wp_bind.mpr (wp_refusing_allocuvmLoop (n := pages newsz - pages oldsz)
    (by omega) ?_ (by omega) h
    (fun w hw hw' => hfresh w hw (by omega)) fun r s1 bs1 he => ?_)
  · simp only [pages, PGSIZE]
    omega
  have hlt : 0 < pages newsz - pages oldsz → oldsz < newsz := by
    intro hpos
    by_contra hge
    obtain rfl : oldsz = newsz := by omega
    omega
  cases he with
  | all hneed h1 hz hs => exact hQ _ s1 bs1 (by rw [hneed]; exact .all h1 hz hs)
  | page hneed h1 hm hz hs =>
    rw [refusing_bind]
    refine wp_bind.mpr (wp_refusing_deallocuvm h1 (by omega) (hlt (by omega)) fun s2 h2 hsw => ?_)
    obtain ⟨hf, hpte⟩ := hz.undone (by omega) hbound hfresh (fun _ => le_rfl) hsw
    exact hQ 0 s2 bs1 (by rw [hneed]; exact .page h2 hf hpte (hsw.failed.trans hs))
  | table hneed hP h1 hg hPg hm hnone hold hs hstuck =>
    cases r with
    | true =>
      refine hQ newsz s1 bs1 (by
        rw [hneed]
        exact .unmapped (by omega) hnone hs fun hall =>
          have hst := hstuck hall
          ⟨hst.paged, hst.last.mp rfl, hst.short.mp rfl⟩)
    | false =>
      rw [refusing_bind]
      refine wp_bind.mpr (wp_refusing_deallocuvm h1 (by omega) (hlt (by omega)) fun s2 h2 hsw => ?_)
      refine hQ 0 s2 bs1 ?_
      rw [hneed]
      refine .lost h2 hg hPg (hlt (by omega)) (hsw.failed.trans hs) fun hall => ?_
      have hst := hstuck hall
      obtain ⟨hf, hpte⟩ := hst.paged.undone (by omega) hbound hfresh hP hsw
      exact ⟨hf, hpte, fun hlen => absurd (hst.short.mpr hlen) (by simp)⟩

/-- When the mappings are as before, a page that was free is free or a page table. -/
lemma Space.returned (h : Space sy T R d s) (h' : Space sy T R d s')
    (hpte : ∀ v < NUSER, s'.pte d v = s.pte d v) {g : Nat} (hg : g ∈ s.fs.freelist) :
    g ∈ s'.fs.freelist ∨ ∃ j < NPDENTRIES, s'.table d j = some g := by
  have hzero := Own.not_free h hg
  have hpos := List.count_pos_iff.mpr hg
  have hcount : _ + (_ + _) = _ := h.count g
  have hcount' : _ + (_ + _) = _ := h'.count g
  by_cases hin : g ∈ s'.fs.freelist
  · exact .inl hin
  · have hdir : d ≠ g := by
      rintro rfl
      have := mass_dir s d
      omega
    have hleaf : occ (Finset.range NUSER) (s'.leaf d) (some g) = occ (Finset.range NUSER)
        (s.leaf d) (some g) :=
      occ_congr fun v hv => leaf_congr (hpte v (Finset.mem_range.mp hv))
    rw [List.count_eq_zero.mpr hin] at hcount'
    unfold State.mass at hcount hcount' hzero
    rw [if_neg hdir] at hcount hcount' hzero
    obtain ⟨j, hj, ht⟩ := exists_of_occ_pos (S := Finset.range NPDENTRIES)
      (v := s'.table d) (b := some g)
      (by omega)
    exact .inr ⟨j, Finset.mem_range.mp hj, ht⟩

lemma Paged.enlarged (h : Space sy T R d s') (hle : oldsz ≤ newsz) (hnew : newsz < KERNBASE)
    (hz : Paged R zero d (pages oldsz) (pages newsz - pages oldsz) s s') :
    Enlarged d oldsz newsz s s' := by
  have hpages := pages_mono hle
  have hbound : pages newsz ≤ NUSER := pages_le hnew.le
  have hrange : ∀ v, PGROUNDUP oldsz ≤ PGSIZE * v ∧ PGSIZE * v < newsz ↔
      pages oldsz ≤ v ∧ v < pages oldsz + (pages newsz - pages oldsz) := by
    intro v
    rw [range_iff (by omega)]
    omega
  constructor
  · intro v hv hvn
    obtain ⟨hv, hvn⟩ := (hrange v).mp ⟨hv, hvn⟩
    obtain ⟨g, hg, hpte, hzero⟩ := hz.new v hv hvn
    have hleaf : s'.leaf d v = some g := by
      rw [State.leaf, hpte, Option.map_some, frame_add g (by decide)]
    exact ⟨g, hg, by rw [userEntry]; exact hpte, hzero, fun w hw hgw =>
      h.leaf_inj hw (by omega) hgw hleaf⟩
  · intro v hv hout
    exact hz.old v hv fun hin => hout ((hrange v).mpr hin)

/-- Only a run that was refused a page table lies. -/
lemma CallEnd.truth_iff {o : Option Need} {r : Nat} (h : Space sy T R d s) (hnew : newsz < KERNBASE)
    (hle : oldsz ≤ newsz) (he : CallEnd sy T R d oldsz newsz s bs o r s') :
    (r = newsz ∧ Enlarged d oldsz newsz s s' ∨ r = 0 ∧ Undone d s s') ↔ o ≠ some .table := by
  cases he with
  | all h' hz _ => exact iff_of_true (.inl ⟨rfl, hz.enlarged h' hle hnew⟩) (by simp)
  | page h' _ hpte _ =>
    have hsame : ∀ v < NUSER, s'.pte d v = s.pte d v := fun v hv => hpte v (hv.trans (by decide))
    exact iff_of_true (.inr ⟨rfl, hsame, fun g hg => h.returned h' hsame hg⟩) (by simp)
  | unmapped hm hnone _ _ =>
    refine iff_of_false ?_ (by simp)
    rintro (⟨-, hlarge, -⟩ | ⟨h0, -⟩)
    · obtain ⟨hv, hvn⟩ := (range_iff (show oldsz ≤ KERNBASE by omega)).mpr
        ⟨Nat.le_add_right .., hm⟩
      obtain ⟨g, -, hpte, -⟩ := hlarge _ hv hvn
      rw [hnone] at hpte
      exact absurd hpte (by simp)
    · have := lt_pages.mp hm
      omega
  | lost h' hg hPg hlt _ _ =>
    refine iff_of_false ?_ (by simp)
    rintro (⟨h0, -⟩ | ⟨-, -, hback⟩)
    · omega
    · rcases hback _ hg with hfree | ⟨j, hj, ht⟩
      · have := Own.not_free h' hfree
        omega
      · have := h'.rest_zero (mass_table hj ht)
        omega

lemma allocTruth_iff_of_run {r : Nat} {bs' : List Bool}
    (hrun : (refusing (allocuvm sy d oldsz newsz)).run (s, bs) = .ok r (s', bs')) :
    AllocTruth sy d oldsz newsz s bs ↔ r = newsz ∧ Enlarged d oldsz newsz s s' ∨ r = 0 ∧
      Undone d s s' := by
  refine ⟨?_, fun hcase => ⟨r, s', bs', hrun, hcase⟩⟩
  rintro ⟨r1, s1, bs1, hrun1, hcase⟩
  obtain ⟨rfl, heq⟩ := Res.ok.inj (hrun.symm.trans hrun1)
  cases heq
  exact hcase

/-- `allocuvm` tells the truth unless the first page that it does not get is to be a page table. -/
theorem allocuvm_truth_iff (h : Space sy T R d s) (hnew : newsz < KERNBASE) (hle : oldsz ≤ newsz)
    (hfresh : ∀ w, pages oldsz ≤ w → w < NUSER → s.pte d w = none) (bs : List Bool) :
    AllocTruth sy d oldsz newsz s bs ↔
      (needs (s.tables d) (pages oldsz)
        (pages newsz - pages oldsz))[granted bs s.fs.freelist.length]? ≠
        some .table := by
  obtain ⟨r, ⟨s', bs'⟩, hrun, hend⟩ := wp_total (s := (s, bs)) (wp_refusing_allocuvm
    (Q := fun r t => CallEnd sy T R d oldsz newsz s bs _ r t.1) h hnew hle hfresh
      fun _ _ _ he => he)
  rw [allocTruth_iff_of_run hrun]
  exact hend.truth_iff h hnew hle

end Call

section Example

variable {oldsz w : Nat}

lemma space_onePageFree :
    Space twoPages ([303, 300, 301, 302].count ·) (fun _ => 0) 300 (onePageAt 0 7 [303]) :=
  space_onePageAt (i := 0) (f := 7) (l := [303]) (by decide) (by decide) (by decide) (by decide)
    (by decide)

lemma fresh_onePageFree (hold : 0 < oldsz) (hw : pages oldsz ≤ w) :
    (onePageAt 0 7 [303]).pte 300 w = none := by
  have hpos : 0 < pages oldsz := lt_pages.mpr hold
  rw [pte_onePageAt (by decide) (by decide), if_neg (by omega)]

lemma tables_onePageFree : (onePageAt 0 7 [303]).tables 300 = fun j => decide (j = 0) := by
  funext j
  rw [State.tables, table_onePageAt]
  split_ifs with hj <;> simp [hj]

/-- One page is free, and the new page needs a page table: `allocuvm` does not tell the truth. -/
theorem allocuvm_lies :
    Space twoPages ([303, 300, 301, 302].count ·) (fun _ => 0) 300 (onePageAt 0 7 [303]) ∧
      (∀ w, pages (PGSIZE * 1024) ≤ w → w < NUSER → (onePageAt 0 7 [303]).pte 300 w = none) ∧
      ¬ AllocTruth twoPages 300 (PGSIZE * 1024) (PGSIZE * 1025) (onePageAt 0 7 [303]) [] := by
  have hfresh : ∀ w, pages (PGSIZE * 1024) ≤ w → w < NUSER →
      (onePageAt 0 7 [303]).pte 300 w = none :=
    fun w hw _ => fresh_onePageFree (by decide) hw
  have hnew : PGSIZE * 1025 < KERNBASE := by decide
  have hle : PGSIZE * 1024 ≤ PGSIZE * 1025 := by decide
  refine ⟨space_onePageFree, hfresh, ?_⟩
  obtain ⟨r, ⟨s', bs'⟩, hrun, hend⟩ := wp_total (wp_refusing_allocuvm
    (Q := fun r t => CallEnd twoPages _ _ 300 _ _ (onePageAt 0 7 [303]) _ _ r t.1)
    space_onePageFree hnew hle hfresh fun _ _ _ he => he)
  rw [allocTruth_iff_of_run hrun, hend.truth_iff space_onePageFree hnew hle, tables_onePageFree]
  decide

/-- The free page is enough for a page in the table that is there. -/
theorem allocuvm_truth_page :
    AllocTruth twoPages 300 PGSIZE (PGSIZE * 2) (onePageAt 0 7 [303]) [] := by
  refine (allocuvm_truth_iff space_onePageFree (by decide) (by decide)
    (fun w hw _ => fresh_onePageFree (by decide) hw) []).mpr ?_
  rw [tables_onePageFree]
  decide

end Example

end Xv6.Vm
