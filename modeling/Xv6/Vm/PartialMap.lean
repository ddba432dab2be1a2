import Xv6.Vm.Space

/-!
# Page tables as partial maps

What `mappages` does to the entries of an address space, whatever page tables there are, and the map
that `setupkvm` makes.
-/

namespace Xv6.Vm

open Lib Prog

/-- Looking up an address through `walkpgdir`. Without a page table there is no entry. -/
def lookup (pgdir va : Nat) : V Nat := do
  match ← walkpgdir pgdir va false with
  | none => pure 0
  | some (pgtab, i) => read fun s => s.word pgtab i

/-- What `mappages` stores for the page that is `k` pages after the first. -/
def mapEntry (pa perm k : Nat) : Nat := (pa + PGSIZE * k) % 2 ^ 32 ||| perm ||| PTE_P

/-- The entry that the table `kmap` asks for at page `w`. -/
def kmapEntry : List Kmap → Nat → Nat
  | [], _ => 0
  | k :: ks, w =>
    if k.virt ≤ PGSIZE * w ∧ PGSIZE * w < k.virt + (k.physEnd + 2 ^ 32 - k.physStart) % 2 ^ 32 then
      mapEntry k.physStart k.perm (w - k.virt / PGSIZE)
    else kmapEntry ks w

section Entries

variable {s : State} {d v w t pa perm a : Nat} {E : Option Panic → State → Prop}

/-- `walkpgdir` looks at the page of the address only. -/
lemma walkpgdir_page (d a : Nat) (alloc : Bool) :
    walkpgdir d a alloc = walkpgdir d (PGSIZE * (a / PGSIZE)) alloc := by
  have hdir : PDX (PGSIZE * (a / PGSIZE)) = PDX a := by
    simp only [PDX, PGSIZE]
    omega
  have htab : PTX (PGSIZE * (a / PGSIZE)) = PTX a := by
    simp only [PTX, PGSIZE]
    omega
  rw [walkpgdir, walkpgdir, hdir, htab]

lemma page_lt (ha : a < 2 ^ 32) : a / PGSIZE < NPAGES := by
  simp only [PGSIZE, NPAGES]
  omega

lemma run_lookup (ha : a < 2 ^ 32) : (lookup d a).run s = .ok (s.entry d (a / PGSIZE)) s := by
  rw [lookup, walkpgdir_page, run_bind]
  cases ht : s.table d (a / PGSIZE / 1024) with
  | none =>
    rw [run_walkpgdir_missing (page_lt ha) ht, entry_of_no_table ht]
    rfl
  | some t =>
    rw [run_walkpgdir_found (page_lt ha) ht, entry_of_table ht]
    rfl

/-- `walkpgdir` changes no entry. -/
lemma wp_walkpgdir_entry {Q : Option (Nat × Nat) → State → Prop} (h : Apart d s) (hv : v < NPAGES)
    (hok : ∀ t s', Apart d s' → s'.table d (v / 1024) = some t →
      (∀ w < NPAGES, s'.entry d w = s.entry d w) → Q (some (t, v % 1024)) s')
    (hfail : ∀ s', Apart d s' → Q none s') : (walkpgdir d (PGSIZE * v) true).wp Q E s := by
  apply wp_refusing_nil.mp
  refine wp_refusing_walkpgdir hv (fun t ht => hok t s h ht fun _ _ => rfl) (fun t l ht hf _ => ?_)
    fun _ _ => hfail _ (h.congr (fun _ => rfl) rfl)
  obtain ⟨h', htable, hentry⟩ := h.tabled ht hf
  exact hok t _ h' (by rw [htable, if_pos rfl]) hentry

lemma mapEntry_zero (hpa : pa < 2 ^ 32) : mapEntry pa perm 0 = pa ||| perm ||| PTE_P := by
  rw [mapEntry, Nat.mul_zero, Nat.add_zero, Nat.mod_eq_of_lt hpa]

lemma mapEntry_succ (k : Nat) :
    mapEntry ((pa + PGSIZE) % 2 ^ 32) perm k = mapEntry pa perm (k + 1) := by
  have hsum : pa + PGSIZE + PGSIZE * k = pa + PGSIZE * (k + 1) := by
    simp only [PGSIZE]
    omega
  rw [mapEntry, mapEntry, Nat.mod_add_mod, hsum]

/-- The pages from `v` to `v + n` have been mapped to those from `pa` on. -/
def Mapping (d v n pa perm : Nat) (s s' : State) : Prop :=
  ∀ w < NPAGES, s'.entry d w = if v ≤ w ∧ w ≤ v + n then mapEntry pa perm (w - v) else s.entry d w

/-- The loop of `mappages` over pages that are not present. -/
lemma wp_mappagesLoop_mapping {s : State} {v n pa : Nat} {Q : Bool → State → Prop} (h : Apart d s)
    (hn : v + n < NPAGES) (hpa : pa < 2 ^ 32) (hperm : perm < 2 ^ 32)
    (hfresh : ∀ w, v ≤ w → w ≤ v + n → present (s.entry d w) = false)
    (hok : ∀ s', Apart d s' → Mapping d v n pa perm s s' → Q true s')
    (hfail : ∀ s', Apart d s' → Q false s') :
    (mappagesLoop d (PGSIZE * v) (PGSIZE * (v + n)) pa perm (n + 1)).wp Q E s := by
  have hv : v < NPAGES := by omega
  rw [mappagesLoop]
  refine wp_bind.mpr (wp_walkpgdir_entry h hv (fun t s1 h1 ht hold => ?_) hfail)
  have hword : ¬ present (s1.word t (v % 1024)) = true := by
    rw [← entry_of_table ht, hold v hv, hfresh v le_rfl (by omega)]
    decide
  obtain ⟨htable, hentry⟩ := h1.entry_setWord hv ht
    (or_lt (or_lt hpa hperm) (show PTE_P < 2 ^ 32 by decide))
  have h2 : Apart d (s1.setWord t (v % 1024) (pa ||| perm ||| PTE_P)) := h1.congr htable rfl
  simp only [wp_read, if_neg hword, wp_write]
  cases n with
  | zero =>
    rw [Nat.add_zero, if_pos rfl]
    refine hok _ h2 fun w hw => ?_
    rw [hentry w hw, hold w hw, Nat.add_zero]
    by_cases hwv : w = v
    · rw [if_pos hwv, if_pos (by omega), hwv, Nat.sub_self, mapEntry_zero hpa]
    · rw [if_neg hwv, if_neg (by omega)]
  | succ n =>
    have hend : v + (n + 1) = v + 1 + n := by omega
    rw [if_neg (page_ne_last v n), next_page (by omega), hend]
    refine wp_mappagesLoop_mapping h2 (by omega) (Nat.mod_lt _ (by decide)) hperm
      (fun w hw hwn => ?_)
      (fun s' h' hmap => hok s' h' fun w hw => ?_) hfail
    · rw [hentry w (by omega), if_neg (by omega), hold w (by omega)]
      exact hfresh w (by omega) (by omega)
    · rw [hmap w hw]
      by_cases hin : v + 1 ≤ w ∧ w ≤ v + 1 + n
      · have hsub : w - v = w - (v + 1) + 1 := by omega
        rw [if_pos hin, if_pos (by omega), hsub, mapEntry_succ]
      · rw [if_neg hin, hentry w hw, hold w hw]
        by_cases hwv : w = v
        · rw [if_pos hwv, if_pos (by omega), hwv, Nat.sub_self, mapEntry_zero hpa]
        · rw [if_neg hwv, if_neg (by omega)]
termination_by n

/-! ### `setupkvm` -/

/-- The free pages are different pages, and such as `kfree` accepts. -/
structure Supply (sy : Symbols) (s : State) : Prop where
  nodup : s.fs.freelist.Nodup
  valid : ∀ g ∈ s.fs.freelist, sy.Valid g

lemma kmapEntry_cons {k : Kmap} {ks : List Kmap} {n : Nat} (hvirt : k.virt = PGSIZE * v)
    (hsize : (k.physEnd + 2 ^ 32 - k.physStart) % 2 ^ 32 = PGSIZE * (n + 1)) (w : Nat) :
    kmapEntry (k :: ks) w =
      if v ≤ w ∧ w ≤ v + n then mapEntry k.physStart k.perm (w - v) else kmapEntry ks w := by
  have hiff : k.virt ≤ PGSIZE * w ∧
      PGSIZE * w < k.virt + (k.physEnd + 2 ^ 32 - k.physStart) % 2 ^ 32 ↔ v ≤ w ∧ w ≤ v + n := by
    rw [hvirt, hsize]
    simp only [PGSIZE]
    omega
  have hdiv : k.virt / PGSIZE = v := by rw [hvirt, Nat.mul_div_cancel_left _ (by decide)]
  simp only [kmapEntry, hiff, hdiv]

/-- Below the pages it covers, the table asks for nothing. -/
lemma Covers.kmapEntry_eq_zero {ks : List Kmap} (h : Covers v ks) (hw : w < v) :
    kmapEntry ks w = 0 := by
  induction ks generalizing v with
  | nil => rfl
  | cons k ks ih =>
    obtain ⟨u, n, hvu, -, hvirt, hsize, -, -, -, hrest⟩ := h
    rw [kmapEntry_cons hvirt hsize, if_neg (by omega)]
    exact ih hrest (by omega)

lemma wp_setupkvmLoop_entries {s : State} {v : Nat} {ks : List Kmap} {Q : Bool → State → Prop}
    (hks : Covers v ks) (h : Apart d s) (hfresh : ∀ w < NPAGES, v ≤ w → s.entry d w = 0)
    (hok : ∀ s', (∀ w < NPAGES, s'.entry d w = if w < v then s.entry d w else kmapEntry ks w) →
      Q true s')
    (hfail : ∀ s', Q false s') : (setupkvmLoop d ks).wp Q E s := by
  induction ks generalizing v s with
  | nil =>
    refine hok s fun w hw => ?_
    split_ifs with hlt
    · rfl
    · exact hfresh w hw (by omega)
  | cons k ks ih =>
    obtain ⟨u, n, hvu, hun, hvirt, hsize, hphys, hperm, -, hrest⟩ := hks
    rw [setupkvmLoop, hvirt, hsize, mappages_range hun]
    refine wp_bind.mpr (wp_mappagesLoop_mapping h hun hphys hperm (fun w hw hwn => ?_)
      (fun s1 h1 hmap => ?_) fun s' _ => hfail s')
    · rw [hfresh w (by omega) (by omega), present_zero]
    · refine ih hrest h1 (fun w hw hle => ?_) (fun s' hentry => hok s' fun w hw => ?_)
      · rw [hmap w hw, if_neg (by omega)]
        exact hfresh w hw (by omega)
      · rw [hentry w hw, hmap w hw, kmapEntry_cons hvirt hsize]
        by_cases hin : u ≤ w ∧ w ≤ u + n
        · rw [if_pos hin, if_pos hin, if_pos (by omega), if_neg (by omega)]
        · rw [if_neg hin, if_neg hin]
          by_cases hlt : w < v
          · rw [if_pos hlt, if_pos (by omega)]
          · rw [if_neg hlt]
            split_ifs with hlow
            · rw [hfresh w hw (by omega), hrest.kmapEntry_eq_zero hlow]
            · rfl

lemma apart_zero (hz : s.page d = fun _ => 0) (hnodup : s.fs.freelist.Nodup)
    (hlt : ∀ g ∈ s.fs.freelist, g < NPAGES) (hd : d ∉ s.fs.freelist) : Apart d s where
  inj i _ _ _ _ ht _ := absurd ht (by simp [table_zero hz])
  ne_dir i _ ht := absurd ht (by simp [table_zero hz])
  nodup := hnodup
  lt := hlt
  fresh g hg := ⟨fun h => hd (h ▸ hg), fun i _ ht => absurd ht (by simp [table_zero hz])⟩

/-- The entries that `setupkvm` makes depend on the symbols of the kernel only. -/
lemma wp_setupkvm_entries {sy : Symbols} {Q : Option Nat → State → Prop} (h : Supply sy s)
    (hok : ∀ d s', (∀ w < NPAGES, s'.entry d w = kmapEntry (kmap sy) w) → Q (some d) s')
    (hfail : ∀ s', Q none s') : (setupkvm sy).wp Q E s := by
  rw [setupkvm, kalloc]
  refine wp_bind.mpr ?_
  rw [wp_act, if_pos rfl]
  cases hf : s.fs.freelist with
  | nil => exact hfail _
  | cons d l =>
    have hnodup := List.nodup_cons.mp (hf ▸ h.nodup)
    have hdata := (h.valid d (by rw [hf]; exact List.mem_cons_self)).data_lt
    have hpage : ((s.setFree l).setPage d fun _ => 0).page d = fun _ => 0 := State.setPage_same
    have hapart : Apart d ((s.setFree l).setPage d fun _ => 0) := by
      refine apart_zero hpage hnodup.2 (fun g hg => ?_) hnodup.1
      exact (h.valid g (by rw [hf]; exact List.mem_cons_of_mem _ hg)).lt.trans (by decide)
    have hzero : ∀ w, ((s.setFree l).setPage d fun _ => 0).entry d w = 0 := fun w =>
      entry_of_no_table (table_zero hpage _)
    simp only [wp_ret, List.head?_cons, wp_memset]
    rw [if_neg (by decide)]
    refine wp_bind.mpr (wp_setupkvmLoop_entries (covers_kmap hdata) hapart (fun w _ _ => hzero w)
      (fun s' hentry => hok d s' fun w hw => ?_) hfail)
    rw [hentry w hw, hzero]
    split_ifs with hlt
    · exact ((covers_kmap hdata).kmapEntry_eq_zero hlt).symm
    · rfl

lemma kmapEntry_above {virt lo hi : Nat} {ks : List Kmap}
    (h : virt + (hi + 2 ^ 32 - lo) % 2 ^ 32 ≤ PGSIZE * w) :
    kmapEntry (⟨virt, lo, hi, perm⟩ :: ks) w = kmapEntry ks w :=
  if_neg fun hin => absurd hin.2 (not_lt.mpr h)

/-- The devices are mapped to their own addresses, up to the end of the address space. -/
lemma kmapEntry_devices (sy : Symbols) (hdev : DEVSPACE ≤ a) (ha : a < 2 ^ 32) :
    kmapEntry (kmap sy) (a / PGSIZE) = PGSIZE * (a / PGSIZE) ||| PTE_W ||| PTE_P := by
  have hdata := sy.data_le.trans sy.fin_le
  have htext := sy.text
  have hpage : DEVSPACE ≤ PGSIZE * (a / PGSIZE) := by
    simp only [DEVSPACE, PGSIZE] at *
    omega
  have hlast : PGSIZE * (a / PGSIZE) < 2 ^ 32 := by
    have hdiv := Nat.mul_div_le a PGSIZE
    omega
  have hend : DEVSPACE + (0 + 2 ^ 32 - DEVSPACE) % 2 ^ 32 = 2 ^ 32 := by decide
  have hsame : (DEVSPACE + PGSIZE * (a / PGSIZE - DEVSPACE / PGSIZE)) % 2 ^ 32 = PGSIZE *
      (a / PGSIZE) := by
    simp only [DEVSPACE, PGSIZE] at *
    omega
  -- the first three rows end below the devices
  have hio : KERNBASE + (EXTMEM + 2 ^ 32 - 0) % 2 ^ 32 ≤ DEVSPACE := by decide
  have hcode : KERNLINK + (sy.data - KERNBASE + 2 ^ 32 - (KERNLINK - KERNBASE)) % 2 ^ 32 ≤
      DEVSPACE := by
    simp only [KERNBASE, KERNLINK, PHYSTOP, DEVSPACE, EXTMEM] at *
    omega
  have hram : sy.data + (PHYSTOP + 2 ^ 32 - (sy.data - KERNBASE)) % 2 ^ 32 ≤ DEVSPACE := by
    simp only [KERNBASE, KERNLINK, PHYSTOP, DEVSPACE, EXTMEM] at *
    omega
  rw [kmap, kmapEntry_above (hio.trans hpage), kmapEntry_above (hcode.trans hpage),
    kmapEntry_above (hram.trans hpage), kmapEntry]
  dsimp only
  rw [hend, if_pos ⟨hpage, hlast⟩, mapEntry, hsame]

/-- Page tables implement a partial map. `mappages` over pages that are not present does not panic,
and when it succeeds each of these pages is mapped to its place after `pa` and every other entry is
as before. So the map that `setupkvm` makes is the same for every process, and the devices are in it
up to the end of the address space. -/
theorem mappages_partial_map :
    (∀ (s : State) (d a : Nat), a < 2 ^ 32 →
      (lookup d a).run s = .ok (s.entry d (a / PGSIZE)) s) ∧
    (∀ (s : State) (d va size pa perm : Nat), Apart d s → 0 < size → va + size ≤ 2 ^ 32 →
      pa < 2 ^ 32 → perm < 2 ^ 32 →
      (∀ w, va / PGSIZE ≤ w → w ≤ (va + size - 1) / PGSIZE → present (s.entry d w) = false) →
      ∃ r s', (mappages d va size pa perm).run s = .ok r s' ∧ (r = true → ∀ a < 2 ^ 32,
        s'.entry d (a / PGSIZE) =
          if va / PGSIZE ≤ a / PGSIZE ∧ a / PGSIZE ≤ (va + size - 1) / PGSIZE then
            mapEntry pa perm (a / PGSIZE - va / PGSIZE)
          else s.entry d (a / PGSIZE))) ∧
    (∀ (sy : Symbols) (s : State), Supply sy s → ∃ r s', (setupkvm sy).run s = .ok r s' ∧
      ∀ d, r = some d → ∀ a < 2 ^ 32,
        s'.entry d (a / PGSIZE) = kmapEntry (kmap sy) (a / PGSIZE) ∧
        (DEVSPACE ≤ a → s'.entry d (a / PGSIZE) = PGSIZE * (a / PGSIZE) ||| PTE_W ||| PTE_P)) := by
  refine ⟨fun s d a ha => run_lookup ha,
    fun s d va size pa perm h hsize hend hpa hperm hfresh => ?_,
    fun sy s h => ?_⟩
  · obtain ⟨n, hn⟩ := Nat.exists_eq_add_of_le
      (Nat.div_le_div_right (c := PGSIZE) (show va ≤ va + size - 1 by omega))
    have hlt : va / PGSIZE + n < NPAGES := hn ▸ page_lt (by omega)
    rw [mappages_eq hsize hend rfl hn]
    rw [hn] at hfresh ⊢
    refine wp_total (wp_mappagesLoop_mapping h hlt hpa hperm hfresh (fun s' _ hmap _ a ha => ?_)
      fun s' _ hfalse => absurd hfalse (by decide))
    exact hmap _ (page_lt ha)
  · refine wp_total (wp_setupkvm_entries h (fun d s' hentry d' hd a ha => ?_) fun s' d hd => ?_)
    · rw [← Option.some.inj hd, hentry _ (page_lt ha)]
      exact ⟨rfl, fun hdev => kmapEntry_devices sy hdev ha⟩
    · exact absurd hd (by simp)

/-- A directory without page tables, page 2, and one free page. -/
def emptyDirectory : State where
  fs := { disksize := 0, sector := fun _ _ => 0, log := ⟨0, 0, false, []⟩, inode := fun _ => {},
          file := fun _ => {}, proc := fun _ => {}, input := [], freelist := [3] }
  page _ _ := 0
  pcb _ := {}

theorem mappages_partial_map_emptyDirectory : ∃ s',
    (mappages 2 (PGSIZE + 5) PGSIZE (PGSIZE * 7) PTE_W).run emptyDirectory = .ok true s' ∧
    ∀ w < NPAGES, s'.entry 2 w = if 1 ≤ w ∧
      w ≤ 2 then mapEntry (PGSIZE * 7) PTE_W (w - 1) else 0 := by
  have hzero : ∀ w, emptyDirectory.entry 2 w = 0 := fun w => entry_of_no_table (table_zero rfl _)
  have hrun : ∃ s', (mappages 2 (PGSIZE + 5) PGSIZE (PGSIZE * 7) PTE_W).run emptyDirectory =
    .ok true s' := ⟨_, rfl⟩
  have hfirst : (PGSIZE + 5) / PGSIZE = 1 := by decide
  have hlast : (PGSIZE + 5 + PGSIZE - 1) / PGSIZE = 2 := by decide
  obtain ⟨r, s', hr, hmap⟩ :=
    mappages_partial_map.2.1 emptyDirectory 2 (PGSIZE + 5) PGSIZE (PGSIZE * 7)
    PTE_W (apart_zero rfl (by decide) (by decide) (by decide)) (by decide) (by decide) (by decide)
    (by decide) fun w _ _ => by rw [hzero, present_zero]
  obtain ⟨s'', hr'⟩ := hrun
  obtain ⟨hret, -⟩ := Res.ok.inj (hr.symm.trans hr')
  refine ⟨s', hret ▸ hr, fun w hw => ?_⟩
  have hentry := hmap hret (PGSIZE * w) (by simp only [PGSIZE, NPAGES] at *; omega)
  rwa [Nat.mul_div_cancel_left _ (by decide), hfirst, hlast, hzero] at hentry

end Entries

end Xv6.Vm
