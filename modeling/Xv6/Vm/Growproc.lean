import Xv6.Vm.Allocuvm

/-!
# Growing and shrinking an address space

`growproc`, from `allocuvm` and `deallocuvm`. `allocuvm` does not look at what `mappages` returns:
when there is memory for every new page but not for the page table of the last one, it reports
success with that page missing. `growproc` takes the size 0 for an error and a size that wraps for a
growth. -/

namespace Xv6.Vm

open Lib Prog

/-! ### `allocuvm` when nothing is refused -/

/-- How many page tables are missing for the pages `v`, …, `v + n - 1`, when the table of `v` is
there unless `v` is its first page. -/
def State.missing (s : State) (d v n : Nat) : Nat :=
  ((List.range' v n).filter fun w => w % 1024 = 0 ∧ s.table d (w / 1024) = none).length

/-- One page is lacking, and it is the one for the page table of the last page. -/
def Short (s : State) (d v n : Nat) : Prop :=
  0 < n ∧ (v + n - 1) % 1024 = 0 ∧ s.table d ((v + n - 1) / 1024) = none ∧
    s.fs.freelist.length + 1 = n + s.missing d v n

section Alloc

variable {sy : Symbols} {T R : Nat → Nat} {s : State} {d v n newsz oldsz : Nat} {tab : Nat → Bool}
  {E : Option Panic → State → Prop}

/-- When page `v` has been mapped, the table of the next one is there unless it starts one. -/
lemma start_succ (hne : (v + 1) % 1024 ≠ 0) : upd tab (v / 1024) true ((v + 1) / 1024) = true := by
  rw [show (v + 1) / 1024 = v / 1024 by omega, upd_same]

lemma length_needs (hstart : v % 1024 ≠ 0 → tab (v / 1024) = true) : (needs tab v n).length =
    n + ((List.range' v n).filter fun w => w % 1024 = 0 ∧ tab (w / 1024) = false).length := by
  induction n generalizing v tab with
  | zero => rfl
  | succ n ih =>
    -- the table of page `v` is no longer asked for
    have hrest : ((List.range' (v + 1) n).filter fun w =>
        w % 1024 = 0 ∧ upd tab (v / 1024) true (w / 1024) = false) =
        (List.range' (v + 1) n).filter fun w => w % 1024 = 0 ∧ tab (w / 1024) = false := by
      refine List.filter_congr fun w hw => ?_
      rw [List.mem_range'_1] at hw
      by_cases h0 : w % 1024 = 0
      · rw [upd_ne (by omega)]
      · simp [h0]
    rw [needs, List.length_cons, List.length_append, ih start_succ, hrest, List.range'_succ,
      List.filter_cons]
    cases ht : tab (v / 1024) with
    | true =>
      simp
      omega
    | false =>
      have h0 : v % 1024 = 0 := by
        by_contra hne
        rw [hstart hne] at ht
        cases ht
      simp [h0]
      omega

/-- The last thing asked for is a page table if the last page needs one. -/
lemma getLast_needs (hstart : v % 1024 ≠ 0 → tab (v / 1024) = true) :
    (needs tab v (n + 1)).getLast? = some .table ↔ (v + n) % 1024 = 0 ∧
      tab ((v + n) / 1024) = false := by
  induction n generalizing v tab with
  | zero =>
    rw [needs, Nat.add_zero]
    cases ht : tab (v / 1024) with
    | true => simp [needs]
    | false =>
      refine iff_of_true rfl ⟨?_, rfl⟩
      by_contra hne
      rw [hstart hne] at ht
      cases ht
  | succ n ih =>
    rw [needs, ← List.cons_append, List.getLast?_append_of_ne_nil _ (by simp [needs]),
      ih start_succ,
      show v + 1 + n = v + (n + 1) by omega]
    refine and_congr_right fun h0 => ?_
    rw [upd_ne (by omega)]

/-- The page table of the last page is what is lacking. -/
lemma short_iff (hstart : v % 1024 ≠ 0 → s.table d (v / 1024) ≠ none) : Short s d v n ↔
    (needs (s.tables d) v n)[s.fs.freelist.length]? = some .table ∧
      s.fs.freelist.length + 1 = (needs (s.tables d) v n).length := by
  have htab : ∀ j, s.tables d j = false ↔ s.table d j = none := fun j => by simp [State.tables]
  have hstart' : v % 1024 ≠ 0 → s.tables d (v / 1024) = true := fun hne => by
    simpa [State.tables, Option.isSome_iff_ne_none] using hstart hne
  have hlen : (needs (s.tables d) v n).length = n + s.missing d v n := by
    rw [length_needs hstart']
    simp only [htab]
    rfl
  unfold Short
  rw [← hlen]
  cases n with
  | zero => simp [needs]
  | succ n =>
    have hlast := getLast_needs (n := n) hstart'
    rw [List.getLast?_eq_getElem?, htab] at hlast
    rw [show v + (n + 1) - 1 = v + n by omega]
    constructor
    · rintro ⟨-, h0, ht, hl⟩
      refine ⟨?_, hl⟩
      rw [← hlast.mpr ⟨h0, ht⟩, ← hl, Nat.add_sub_cancel]
    · rintro ⟨ho, hl⟩
      rw [← hl, Nat.add_sub_cancel] at hlast
      obtain ⟨h0, ht⟩ := hlast.mp ho
      exact ⟨Nat.succ_pos n, h0, ht, hl⟩

/-- How `allocuvm` ends when it has to do something. -/
lemma wp_allocuvm {Q : Nat → State → Prop} (h : Space sy T R d s) (hnew : newsz < KERNBASE)
    (hle : oldsz ≤ newsz) (hfresh : ∀ w, pages oldsz ≤ w → w < NUSER → s.pte d w = none)
    (hstart : pages oldsz % 1024 ≠ 0 → s.table d (pages oldsz / 1024) ≠ none)
    (hall : ∀ s', ¬ Short s d (pages oldsz) (pages newsz - pages oldsz) → Space sy T R d s' →
      Paged R zero d (pages oldsz) (pages newsz - pages oldsz) s s' →
        s'.failed = s.failed → Q newsz s')
    (hshort : ∀ s', Short s d (pages oldsz) (pages newsz - pages oldsz) →
      Paged R zero d (pages oldsz) (pages newsz - pages oldsz - 1) s s' →
        s'.failed = true → Q newsz s')
    (hnone : ∀ s', ¬ Short s d (pages oldsz) (pages newsz - pages oldsz) → Frame R s s' →
      (∀ w < NPAGES, s'.pte d w = s.pte d w) → s'.failed = true → Q 0 s') :
    (allocuvm sy d oldsz newsz).wp Q E s := by
  refine wp_refusing_nil.mp (wp_refusing_allocuvm h hnew hle hfresh fun r s' bs' he => ?_)
  have hiff := short_iff (n := pages newsz - pages oldsz) hstart
  rw [granted_nil] at he
  generalize ho : (needs (s.tables d) (pages oldsz)
    (pages newsz - pages oldsz))[s.fs.freelist.length]? = o
    at he hiff
  cases he with
  | all h' hz hs => exact hall s' (by simp [hiff]) h' hz hs
  | page h' hf hpte hs => exact hnone s' (by simp [hiff]) hf hpte hs
  | unmapped hw hnone' hs hstuck =>
    obtain ⟨hz, hm, hlen⟩ := hstuck granted_nil
    refine hshort s' (hiff.mpr ⟨rfl, hlen⟩) ?_ hs
    rwa [← hm, Nat.add_sub_cancel]
  | lost h' hg hPg hlt hs hstuck =>
    obtain ⟨hf, hpte, hlen⟩ := hstuck granted_nil
    exact hnone s' (fun hsh => hlen (hiff.mp hsh).2) hf hpte hs

end Alloc

/-! ### `growproc` -/

/-- Exactly the pages below `sz` are mapped in the user part. -/
def Exactly (s : State) (d sz : Nat) : Prop := ∀ v < NUSER, s.pte d v ≠ none ↔ PGSIZE * v < sz

/-- `growproc(n)` of process `p` changes the size by `n`, with exactly the pages below the new size
mapped, or it fails and changes neither the size nor a mapping. -/
def GrowExact (sy : Symbols) (p : Nat) (n : BitVec 32) (s : State) : Prop :=
  ∃ r s', (growproc sy p n.toInt).run s = .ok r s' ∧
    ((r = 0 ∧ 0 ≤ (s.fs.proc p).sz + n.toInt ∧ (s.fs.proc p).sz + n.toInt < KERNBASE ∧
        ((s'.fs.proc p).sz : Int) = (s.fs.proc p).sz + n.toInt ∧
        Exactly s' (s.pcb p).pgdir (s'.fs.proc p).sz) ∨
      (r = -1 ∧ (s'.fs.proc p).sz = (s.fs.proc p).sz ∧
        ∀ v < NUSER, s'.pte (s.pcb p).pgdir v = s.pte (s.pcb p).pgdir v))

/-- How a growth by `n` ends that does not reach the kernel part. -/
inductive Grown (p : Nat) (n : Int) (s : State) : Int → State → Prop
  | done {s' : State} (hsz : ((s'.fs.proc p).sz : Int) = (s.fs.proc p).sz + n)
      (hn : ¬ Short s (s.pcb p).pgdir (pages (s.fs.proc p).sz)
        (pages ((s.fs.proc p).sz + n).toNat - pages (s.fs.proc p).sz))
      (hex : Exactly s' (s.pcb p).pgdir (s'.fs.proc p).sz) : Grown p n s 0 s'
  | short {s' : State} (hs : Short s (s.pcb p).pgdir (pages (s.fs.proc p).sz)
        (pages ((s.fs.proc p).sz + n).toNat - pages (s.fs.proc p).sz))
      (hex : ¬ Exactly s' (s.pcb p).pgdir (s'.fs.proc p).sz) : Grown p n s 0 s'
  | failed {s' : State} (hn : ¬ Short s (s.pcb p).pgdir (pages (s.fs.proc p).sz)
        (pages ((s.fs.proc p).sz + n).toNat - pages (s.fs.proc p).sz))
      (hsz : (s'.fs.proc p).sz = (s.fs.proc p).sz)
      (hpte : ∀ v < NUSER, s'.pte (s.pcb p).pgdir v = s.pte (s.pcb p).pgdir v) : Grown p n s (-1) s'

section Growproc

variable {sy : Symbols} {T R : Nat → Nat} {s s' : State} {d p sz newsz v : Nat}

@[simp] lemma setSz_pte (s : State) (p sz d v : Nat) : (s.setSz p sz).pte d v = s.pte d v := rfl

@[simp] lemma setSz_sz (s : State) (p sz : Nat) : ((s.setSz p sz).fs.proc p).sz = sz := by
  simp [State.setSz, State.setProc]

lemma setSz_exactly {z : Nat} : Exactly (s.setSz p sz) d z ↔ Exactly s d z := Iff.rfl

/-- The end of `growproc`, when there is a directory. -/
lemma run_setSize (h : (s.pcb p).pgdir ≠ 0) : (setSize p sz).run s = .ok 0 (s.setSz p sz) := by
  rw [setSize, run_bind]
  change ((if (s.pcb p).pgdir = 0 then _ else (pure () : V Unit)) >>= fun _ => pure 0).run
    (s.setSz p sz) = _
  rw [if_neg h]
  rfl

lemma Exactly.table (h : Exactly s d sz) (hsz : sz ≤ KERNBASE) (hv : v < pages sz) :
    s.table d (v / 1024) ≠ none := by
  intro ht
  have hvu := hv.trans_le (pages_le hsz)
  exact (h v hvu).mpr (lt_pages.mp hv) (pte_of_no_table ht)

lemma Exactly.fresh (h : Exactly s d sz) (hv : pages sz ≤ v) (hvu : v < NUSER) :
    s.pte d v = none := by
  by_contra hne
  have := lt_pages.mpr ((h v hvu).mp hne)
  omega

/-- The first new page needs no new table, unless it is the first page of one. -/
lemma Exactly.start (h : Exactly s d sz) (hsz : sz ≤ KERNBASE) (hne : pages sz % 1024 ≠ 0) :
    s.table d (pages sz / 1024) ≠ none := by
  have := h.table hsz (v := pages sz - 1) (by omega)
  rwa [show (pages sz - 1) / 1024 = pages sz / 1024 by omega] at this

lemma Exactly.paged {c : Nat → Bytes} (h : Exactly s d sz) (hle : sz ≤ newsz)
    (hf : Paged R c d (pages sz) (pages newsz - pages sz) s s') : Exactly s' d newsz := by
  intro v hv
  have hmono := pages_mono hle
  rw [← lt_pages]
  by_cases hin : pages sz ≤ v ∧ v < pages sz + (pages newsz - pages sz)
  · exact iff_of_true (hf.mapped hin.1 hin.2) (by omega)
  · rw [hf.old v (hv.trans (by decide)) hin, h v hv, ← lt_pages]
    omega

lemma Exactly.cut (h : Exactly s d sz) (hle : newsz ≤ sz)
    (hc : Cut R d (pages newsz) (pages sz) s s') : Exactly s' d newsz := by
  intro v hv
  have hmono := pages_mono hle
  rw [hc.pte v (hv.trans (by decide)), ← lt_pages]
  split_ifs with hin
  · exact iff_of_false (by simp) (by omega)
  · rw [h v hv, ← lt_pages]
    omega

section Call

variable (h : Space sy T R (s.pcb p).pgdir s) (hsz : (s.fs.proc p).sz < KERNBASE)
  (hex : Exactly s (s.pcb p).pgdir (s.fs.proc p).sz)

include h

lemma pgdir_ne_zero : (s.pcb p).pgdir ≠ 0 := by
  have hvalid : sy.Valid (s.pcb p).pgdir := by
    refine Own.valid_of_pos h ?_
    have := mass_dir s (s.pcb p).pgdir
    omega
  exact Nat.ne_of_gt hvalid.pos

lemma Frame.pgdir_ne_zero (hf : Frame R s s') : (s'.pcb p).pgdir ≠ 0 := by
  rw [hf.pcb]
  exact Vm.pgdir_ne_zero h

omit h in
/-- `allocuvm` refuses a size in the kernel part. -/
lemma growproc_large {n : Int} (hn : 0 < n) (hmax : n < 2 ^ 31) (hsz : (s.fs.proc p).sz < KERNBASE)
    (hge : KERNBASE ≤ (s.fs.proc p).sz + n) : (growproc sy p n).run s = .ok (-1) s := by
  have hmod : KERNBASE ≤ (((s.fs.proc p).sz + n) % 2 ^ 32).toNat := by
    simp only [KERNBASE] at *
    rw [Int.emod_eq_of_lt (by omega) (by omega)]
    omega
  rw [growproc, run_bind]
  change (if 0 < n then (allocuvm sy (s.pcb p).pgdir (s.fs.proc p).sz
    (((s.fs.proc p).sz + n) % 2 ^ 32).toNat >>= fun z => if z = 0 then pure (-1) else setSize p z)
    else _).run s = _
  rw [if_pos hn, allocuvm, if_pos hmod, pure_bind, if_pos rfl]
  rfl

include hsz

/-- A reduction below zero is taken for a growth that is there already. -/
lemma growproc_wrap {n : Int} (hn : n < 0) (hmin : -2 ^ 31 ≤ n) (hneg : (s.fs.proc p).sz + n < 0) :
    (growproc sy p n).run s =
      if (s.fs.proc p).sz = 0 then .ok (-1) s else .ok 0 (s.setSz p (s.fs.proc p).sz) := by
  have hmod : (s.fs.proc p).sz ≤ (((s.fs.proc p).sz + n) % 2 ^ 32).toNat := by
    have : ((s.fs.proc p).sz + n) % 2 ^ 32 = (s.fs.proc p).sz + n + 2 ^ 32 := by
      rw [← Int.add_emod_right, Int.emod_eq_of_lt (by omega) (by omega)]
    rw [this]
    simp only [KERNBASE] at hsz
    omega
  rw [growproc, run_bind]
  change (if 0 < n then _ else if n < 0 then (deallocuvm sy (s.pcb p).pgdir (s.fs.proc p).sz
    (((s.fs.proc p).sz + n) % 2 ^ 32).toNat >>= fun z => if z = 0 then pure (-1) else setSize p z)
    else _).run s = _
  rw [if_neg (by omega), if_pos hn, deallocuvm, if_pos hmod, pure_bind]
  split_ifs with h0
  · rfl
  · exact run_setSize (pgdir_ne_zero h)

include hex

lemma growproc_pos {n : Int} (hn : 0 < n) (hlt : (s.fs.proc p).sz + n < KERNBASE) :
    ∃ r s', (growproc sy p n).run s = .ok r s' ∧ Grown p n s r s' := by
  obtain ⟨newsz, hnewsz⟩ : ∃ newsz, newsz = ((s.fs.proc p).sz + n).toNat := ⟨_, rfl⟩
  have hmod : (((s.fs.proc p).sz + n) % 2 ^ 32).toNat = newsz := by
    rw [hnewsz, Int.emod_eq_of_lt (by omega) (by simp only [KERNBASE] at *; omega)]
  have hint : (newsz : Int) = (s.fs.proc p).sz + n := by omega
  have hnew : newsz < KERNBASE := by omega
  have hle : (s.fs.proc p).sz ≤ newsz := by omega
  have hpages := pages_mono hle
  refine wp_total ?_
  rw [growproc, wp_read, wp_read]
  simp only [hmod, if_pos hn]
  refine wp_bind.mpr (wp_allocuvm h hnew hle (fun w hw hwu => hex.fresh hw hwu)
    (hex.start hsz.le) (fun s1 he _ hf _ => ?_) (fun s1 he hf _ => ?_) fun s1 hn' hf hpte _ => ?_)
  · have hd := hf.frame.pgdir_ne_zero h
    rw [if_neg (by omega)]
    refine wp_of_run (run_setSize hd) (.done (by rw [setSz_sz, hint]) (hnewsz ▸ he) ?_)
    rw [setSz_sz, setSz_exactly]
    exact hex.paged hle hf
  · have hd := hf.frame.pgdir_ne_zero h
    rw [if_neg (by omega)]
    refine wp_of_run (run_setSize hd) (.short (hnewsz ▸ he) fun hbad => ?_)
    rw [setSz_sz] at hbad
    have hpos := he.1
    have hlast : pages newsz - 1 < NUSER := by
      have := pages_le hnew.le
      omega
    refine (hbad _ hlast).mpr (lt_pages.mp (by omega)) ?_
    rw [setSz_pte, hf.old _ (hlast.trans (by decide)) (by omega)]
    exact hex.fresh (by omega) hlast
  · rw [if_pos rfl]
    exact .failed (hnewsz ▸ hn') (by rw [hf.fs]) fun v hv => hpte v (hv.trans (by decide))

/-- A reduction frees the pages above the new size; a new size of 0 is then reported as an error. -/
lemma growproc_neg {n : Int} (hn : n < 0) (hpos : 0 ≤ (s.fs.proc p).sz + n) :
    ∃ r s', (growproc sy p n).run s = .ok r s' ∧
      Exactly s' (s.pcb p).pgdir ((s.fs.proc p).sz + n).toNat ∧
      if (s.fs.proc p).sz + n = 0 then r = -1
      else r = 0 ∧ (s'.fs.proc p).sz = ((s.fs.proc p).sz + n).toNat := by
  obtain ⟨newsz, hnewsz⟩ : ∃ newsz, newsz = ((s.fs.proc p).sz + n).toNat := ⟨_, rfl⟩
  have hmod : (((s.fs.proc p).sz + n) % 2 ^ 32).toNat = newsz := by
    rw [hnewsz, Int.emod_eq_of_lt hpos (by simp only [KERNBASE] at *; omega)]
  have hlt : newsz < (s.fs.proc p).sz := by omega
  have hzero : (s.fs.proc p).sz + n = 0 ↔ newsz = 0 := by omega
  rw [← hnewsz]
  simp only [hzero]
  refine wp_total ?_
  rw [growproc, wp_read, wp_read]
  simp only [hmod, if_neg (show ¬ 0 < n by omega), if_pos hn]
  have hskip : Skips s (s.pcb p).pgdir (pages newsz) := by
    intro ht
    refine .inr fun w hw hwu => hex.fresh ?_ hwu
    by_contra hlt'
    exact hex.table hsz.le (v := pages newsz) (by omega) ht
  refine wp_bind.mpr (wp_deallocuvm h hsz.le hlt hskip fun s1 h₁ hc => ?_)
  by_cases h0 : newsz = 0
  · rw [if_pos h0]
    refine ⟨hex.cut hlt.le hc, ?_⟩
    rw [if_pos h0]
  · rw [if_neg h0]
    refine wp_of_run (run_setSize (hc.frame.pgdir_ne_zero h))
      ⟨setSz_exactly.mpr (hex.cut hlt.le hc), ?_⟩
    rw [if_neg h0, setSz_sz]
    exact ⟨rfl, rfl⟩

end Call

end Growproc

section OnePage

lemma exactly_onePage : Exactly onePage 300 PGSIZE := by
  intro v hv
  have hlt : PGSIZE * v < PGSIZE ↔ v = 0 := by
    rw [← lt_pages]
    exact Nat.lt_one_iff
  rw [onePage_eq, pte_onePageAt (by decide) (by decide), hlt]
  split_ifs with h0 <;> simp [h0]

lemma space_onePage : Space twoPages ([300, 301, 302].count ·) (fun _ => 0) 300 onePage :=
  space_onePageAt (i := 0) (f := 7) (l := []) (by decide) (by decide) (by decide)
    (by decide) (by decide)

end OnePage

/-! ### The result -/

section Result

variable {sy : Symbols} {T R : Nat → Nat} {s : State} {p : Nat}

/-- `growproc` is exact or changes nothing, except that a process of some size that asks for the
size 0 or less loses its pages or is told of a success, and that a growth for which only the page
table of the last page is lacking succeeds without that page. -/
theorem growproc_exact_iff (h : Space sy T R (s.pcb p).pgdir s) (hsz : (s.fs.proc p).sz < KERNBASE)
    (hex : Exactly s (s.pcb p).pgdir (s.fs.proc p).sz) (n : BitVec 32) : GrowExact sy p n s ↔
    ¬ (0 < (s.fs.proc p).sz ∧ (s.fs.proc p).sz + n.toInt ≤ 0) ∧
    ¬ (0 < n.toInt ∧ (s.fs.proc p).sz + n.toInt < KERNBASE ∧
      Short s (s.pcb p).pgdir (pages (s.fs.proc p).sz)
        (pages ((s.fs.proc p).sz + n.toInt).toNat - pages (s.fs.proc p).sz)) := by
  have hmin : -2 ^ 31 ≤ n.toInt := BitVec.le_toInt n
  have hmax : n.toInt < 2 ^ 31 := BitVec.toInt_lt
  obtain ⟨m, hm⟩ : ∃ m, m = n.toInt := ⟨_, rfl⟩
  unfold GrowExact
  rw [← hm] at hmin hmax ⊢
  rcases lt_trichotomy m 0 with hn | hn | hn
  · -- a reduction
    have hno : ¬ 0 < m := by omega
    simp only [hno, false_and, not_false_eq_true, and_true]
    by_cases hneg : (s.fs.proc p).sz + m < 0
    · have hrun := growproc_wrap h hsz hn hmin hneg
      split_ifs at hrun with h0
      · refine iff_of_true ⟨-1, s, hrun, .inr ⟨rfl, rfl, fun _ _ => rfl⟩⟩ (by omega)
      · refine iff_of_false ?_ (by omega)
        rintro ⟨r, s', hr, hcase⟩
        obtain ⟨rfl, -⟩ := Res.ok.inj (hrun.symm.trans hr)
        rcases hcase with ⟨-, hnonneg, -⟩ | ⟨hbad, -⟩
        · omega
        · omega
    · obtain ⟨r, s', hrun, hex', hcase⟩ := growproc_neg h hsz hex hn (by omega)
      split_ifs at hcase with h0
      · refine iff_of_false ?_ (by omega)
        rintro ⟨r', s'', hr, hcase'⟩
        obtain ⟨rfl, rfl⟩ := Res.ok.inj (hrun.symm.trans hr)
        rcases hcase' with ⟨hbad, -⟩ | ⟨-, -, hsame⟩
        · omega
        · -- page 0 was mapped and is not any more
          have hpage := (hex 0 (by decide)).mpr (by omega)
          rw [← hsame 0 (by decide)] at hpage
          have := (hex' 0 (by decide)).mp hpage
          omega
      · refine iff_of_true ⟨r, s', hrun, .inl ⟨hcase.1, by omega, by omega, ?_, ?_⟩⟩ (by omega)
        · rw [hcase.2]
          omega
        · rw [hcase.2]
          exact hex'
  · -- nothing to do
    subst hn
    have hrun : (growproc sy p 0).run s = .ok 0 (s.setSz p (s.fs.proc p).sz) := by
      rw [growproc, run_bind]
      exact run_setSize (pgdir_ne_zero h)
    refine iff_of_true ⟨0, _, hrun, .inl ⟨rfl, by omega, by omega, ?_, ?_⟩⟩ (by omega)
    · rw [setSz_sz, Int.add_zero]
    · rw [setSz_sz]
      exact hex
  · -- a growth
    by_cases hlt : (s.fs.proc p).sz + m < KERNBASE
    · obtain ⟨r, s', hrun, hg⟩ := growproc_pos h hsz hex hn hlt
      cases hg with
      | done hsz' hns hex' =>
        exact iff_of_true ⟨0, s', hrun, .inl ⟨rfl, by omega, hlt, hsz', hex'⟩⟩
          ⟨by omega, fun hc => hns hc.2.2⟩
      | short hs hbad =>
        refine iff_of_false ?_ fun hc => hc.2 ⟨hn, hlt, hs⟩
        rintro ⟨r, s'', hr, hcase⟩
        obtain ⟨rfl, rfl⟩ := Res.ok.inj (hrun.symm.trans hr)
        rcases hcase with ⟨-, -, -, -, hex'⟩ | ⟨hr', -⟩
        · exact hbad hex'
        · omega
      | failed hns hsz' hpte =>
        exact iff_of_true ⟨-1, s', hrun, .inr ⟨rfl, hsz', hpte⟩⟩ ⟨by omega, fun hc => hns hc.2.2⟩
    · have hrun : (growproc sy p m).run s = .ok (-1) s := growproc_large hn hmax hsz (by omega)
      exact iff_of_true ⟨-1, s, hrun, .inr ⟨rfl, rfl, fun _ _ => rfl⟩⟩
        ⟨by omega, fun hc => hlt hc.2.1⟩

/-- A process of one page that gives it back gets an error, and has lost the page. -/
theorem growproc_zero_not_exact :
    Space twoPages ([300, 301, 302].count ·) (fun _ => 0) 300 onePage ∧
    Exactly onePage 300 (onePage.fs.proc 0).sz ∧ ¬ GrowExact twoPages 0 (-4096#32) onePage := by
  refine ⟨space_onePage, exactly_onePage, ?_⟩
  rintro ⟨r, s', hr, hcase⟩
  obtain ⟨r', s'', hrun, hex', hcase'⟩ := growproc_neg (p := 0)
    (n := -4096) space_onePage (by decide)
    exactly_onePage (by decide) (by decide)
  obtain ⟨rfl, rfl⟩ := Res.ok.inj (hrun.symm.trans hr)
  rw [if_pos (by decide)] at hcase'
  rcases hcase with ⟨hbad, -⟩ | ⟨-, -, hsame⟩
  · omega
  · have hpage := (exactly_onePage 0 (by decide)).mpr (by decide)
    have hgone := (hex' 0 (by decide)).mp (by
      rw [hsame 0 (by decide)]
      exact hpage)
    exact absurd hgone (by decide)

/-- A process of one page may give back one byte. -/
theorem growproc_exact_byte : Exactly onePage 300 (onePage.fs.proc 0).sz ∧
    GrowExact twoPages 0 (-1#32) onePage := by
  refine ⟨exactly_onePage, (growproc_exact_iff space_onePage (by decide) exactly_onePage _).mpr
    ⟨?_, ?_⟩⟩
  · decide
  · exact fun hc => absurd hc.1 (by decide)

end Result

end Xv6.Vm
