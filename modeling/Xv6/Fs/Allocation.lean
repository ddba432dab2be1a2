import Xv6.Fs.MkfsMain

/-!
# Which blocks are allocated

Runs of `balloc` and `bfree`, with the other logged writes of the file system between them, on an
image of `mkfs`. The bitmap marks the blocks before the data area but not those of the log, and
`balloc` goes up to `sb.size`: while a block below the log area is free `balloc` returns a data
block, and after that it returns the blocks of the log.
-/

namespace Xv6

open Lib Prog

/-- Block 0, the super block, the inode blocks, the bitmap blocks and the blocks of the log. -/
def Reserved (b : Nat) : Prop :=
  b = 0 ∨ b = 1 ∨ (∃ i < Mkfs.ninodes, b = IBLOCK i) ∨
    (∃ c < Mkfs.size, b = BBLOCK c Mkfs.ninodes) ∨
    (Mkfs.size - Mkfs.nlog ≤ b ∧ b < Mkfs.size)

/-- A block below the log area is free. -/
def DataFree (s : State) : Prop := ∃ b < LOGSTART, used s.sector b = false

/-- The states of a run of `balloc` and `bfree` calls from boot on the image `img`, with the blocks
that belong to files: `bfree` is called for these only, and besides the bitmap only their contents
and the inode blocks are written. Each `balloc` finds a state with `cond`. -/
inductive AllocRun (cond : State → Prop) (img : Mkfs.Image) : State → (Nat → Prop) → Prop
  | boot : AllocRun cond img (boot img.sect) fun b => DATASTART ≤ b ∧ b < img.freeblock
  | beginTrans {s s' : State} {own : Nat → Prop} (h : AllocRun cond img s own)
      (hr : Xv6.beginTrans.run s = .ok () s') : AllocRun cond img s' own
  | commitTrans {s s' : State} {own : Nat → Prop} (h : AllocRun cond img s own)
      (hr : Xv6.commitTrans.run s = .ok () s') : AllocRun cond img s' own
  | logWrite {s s' : State} {own : Nat → Prop} {b : Nat} {data : Bytes}
      (h : AllocRun cond img s own) (hb : (∃ i < Mkfs.ninodes, b = IBLOCK i) ∨ own b)
      (hr : (Xv6.logWrite b data).run s = .ok () s') : AllocRun cond img s' own
  | balloc {s s' : State} {own : Nat → Prop} {r : Nat} (h : AllocRun cond img s own)
      (hc : cond s) (hr : (Xv6.balloc ROOTDEV).run s = .ok r s') :
      AllocRun cond img s' fun b => b = r ∨ own b
  | bfree {s s' : State} {own : Nat → Prop} {b : Nat} (h : AllocRun cond img s own) (hb : own b)
      (hr : (Xv6.bfree ROOTDEV b).run s = .ok () s') :
      AllocRun cond img s' fun c => c ≠ b ∧ own c

lemma not_reserved {b : Nat} (hlo : DATASTART ≤ b) (hhi : b < LOGSTART) : ¬ Reserved b := by
  have h39 : DATASTART = 39 := rfl
  rintro (rfl | rfl | ⟨i, hi, rfl⟩ | ⟨c, hc, rfl⟩ | ⟨h1, -⟩)
  · omega
  · omega
  · have := IBLOCK_lt hi
    have : BITSTART = 28 := rfl
    omega
  · have : BBLOCK c NINODES < DATASTART := (isBitmap_BBLOCK hc).2
    exact absurd hlo (Nat.not_le.mpr this)
  · exact absurd h1 (Nat.not_le.mpr hhi)

section Run

variable {files : List Mkfs.HostFile} {img : Mkfs.Image} {s s' : State} {own : Nat → Prop} {r : Nat}

lemma mkfs_freeblock_le (h : Mkfs.main files = some img) : img.freeblock < 4096 := by
  obtain ⟨r, a, hr, ha, hu, rfl⟩ := Mkfs.main_eq h
  have h1 := ((Mkfs.advances_root hr).trans (Mkfs.advances_addFiles ha)).2
  have h2 : Mkfs.blank.freeblock = Mkfs.blank.usedblocks := rfl
  change a.freeblock < 4096
  omega

/-- What `balloc` does while a data block is free. -/
lemma took_of_run (h : Volume s) (hf : DataFree s) (hr : (balloc ROOTDEV).run s = .ok r s') :
    Took s r s' := by
  obtain ⟨b, hb, hu⟩ := hf
  exact wp_ok (wp_balloc (Q := fun r s' => Took s r s') (E := fun _ _ => True) h
    ⟨b, mem_freeBlocks.mpr ⟨hb, hu⟩⟩ (.inr fun _ _ => trivial) fun _ _ ht _ => ht) hr

/-- In every reached state the reserved blocks are marked, and files own data blocks. -/
lemma AllocRun.invariant (himg : Mkfs.main files = some img)
    (hlen : files.length + 2 ≤ Mkfs.INODEROOM)
    (h : AllocRun DataFree img s own) : Volume s ∧ ∀ b, own b → DATASTART ≤ b ∧ b < LOGSTART := by
  induction h with
  | boot =>
    refine ⟨Mkfs.volume_boot himg hlen, fun b hb => ⟨hb.1, hb.2.trans ?_⟩⟩
    exact (mkfs_freeblock_le himg).trans (by decide)
  | beginTrans _ hr ih => exact ⟨(beginTrans_ok ih.1 hr).1, ih.2⟩
  | commitTrans _ hr ih =>
    obtain ⟨s1, hr1, hv, -⟩ := commitTrans_ok ih.1
    obtain ⟨-, rfl⟩ := Res.ok.inj (hr1.symm.trans hr)
    exact ⟨hv, ih.2⟩
  | @logWrite s s' own b data _ hb hr ih =>
    refine ⟨wp_ok (wp_logWrite (Q := fun _ s' => Volume s') (E := fun _ _ => True) ih.1.toLayout
      (.inr fun _ _ => trivial) fun _ hl => ?_) hr, ih.2⟩
    have hb' : b < LOGSTART ∧ b ≠ 1 ∧ ¬ IsBitmap b := by
      rcases hb with ⟨i, hi, rfl⟩ | hb
      · have hlt := IBLOCK_lt hi
        refine ⟨hlt.trans (by decide), ?_, fun h => absurd h.1 (Nat.not_le.mpr hlt)⟩
        rw [IBLOCK_eq]
        omega
      · obtain ⟨hlo, hhi⟩ := ih.2 b hb
        refine ⟨hhi, ?_, fun h => absurd h.2 (Nat.not_lt.mpr hlo)⟩
        rintro rfl
        exact absurd hlo (by decide)
    exact (ih.1.logged hb'.1 hb'.2.1 hb'.2.2 hl).1
  | balloc _ hc hr ih =>
    have ht := took_of_run ih.1 hc hr
    refine ⟨ht.volume, ?_⟩
    rintro b (rfl | hb)
    exacts [⟨ht.lo, ht.hi⟩, ih.2 b hb]
  | bfree _ hb hr ih =>
    obtain ⟨hlo, hhi⟩ := ih.2 _ hb
    refine ⟨wp_ok (wp_bfree (Q := fun _ s' => Volume s') (E := fun _ _ => True) ih.1 hlo
      (hhi.trans (by decide)) (.inr fun _ _ => trivial) fun _ hf _ _ => hf.volume) hr,
      fun c hc => ih.2 c hc.2⟩

/-- On an image of `mkfs` whose inodes fit their area, in every run of `balloc` and `bfree` calls in
which `balloc` always finds a data block free, `balloc` returns no reserved block. -/
theorem balloc_not_reserved (himg : Mkfs.main files = some img)
    (hlen : files.length + 2 ≤ Mkfs.INODEROOM) (h : AllocRun DataFree img s own)
    (hfree : DataFree s)
    (hr : (balloc ROOTDEV).run s = .ok r s') : ¬ Reserved r := by
  have ht := took_of_run (h.invariant himg hlen).1 hfree hr
  exact not_reserved ht.lo ht.hi

end Run

/-! ### A full disk -/

/-- The blocks below `n` are in use and the others are free. -/
def Packed (n : Nat) (s : State) : Prop := ∀ b < FSSIZE, used s.sector b = decide (b < n)

section Full

variable {img : Mkfs.Image} {s : State} {own : Nat → Prop} {n : Nat}

lemma Packed.first (h : Packed n s) {r : Nat} (hr : r < FSSIZE) (hn : n < FSSIZE)
    (hfree : used s.sector r = false) (hleast : ∀ c < r, used s.sector c = true) : r = n := by
  rw [h r hr, decide_eq_false_iff_not] at hfree
  by_contra hne
  have := hleast n (by omega)
  rw [h n hn, decide_eq_true_eq] at this
  omega

lemma Packed.clear (h : Packed n s) (hn : n < FSSIZE) : used s.sector n = false := by
  rw [h n hn, decide_eq_false (lt_irrefl n)]

lemma Packed.card (h : Packed n s) : (freeBlocks s.sector).card = LOGSTART - n := by
  have he : freeBlocks s.sector = Finset.Ico n LOGSTART := by
    ext b
    rw [mem_freeBlocks, Finset.mem_Ico, and_comm (a := n ≤ b)]
    refine and_congr_right fun hb => ?_
    rw [h b (hb.trans (by decide)), decide_eq_false_iff_not, Nat.not_lt]
  rw [he, Nat.card_Ico]

/-- At the start of a transaction `balloc` takes the first block that is not packed. -/
lemma Packed.balloc (h : Packed n s) (hv : Volume s) (hb : s.log.busy = true) (hlh : s.log.lh = [])
    (hn : n < LOGSTART) :
    ∃ s', (balloc ROOTDEV).run s = .ok n s' ∧ Volume s' ∧ Packed (n + 1) s' := by
  have hlt : n < FSSIZE := hn.trans (by decide)
  obtain ⟨r, s', hr, rfl, ht⟩ := wp_total (wp_balloc_first
    (Q := fun r s' => r = n ∧ Took s n s') (E := fun _ _ => False) hv.toLayout
    (.inl ⟨⟨hb, by rw [hlh]; decide⟩, n, hlt, h.clear hlt⟩)
    fun r hr hfree hleast _ hl hl1 => by
      obtain rfl := h.first hr hlt hfree hleast
      exact ⟨rfl, hv.took hn hfree hl hl1⟩)
  refine ⟨s', hr, ht.volume, fun b hb => ?_⟩
  rw [ht.used_eq b hb]
  split_ifs with hbr
  · rw [hbr, decide_eq_true (Nat.lt_succ_self _)]
  · rw [h b hb]
    exact decide_eq_decide.mpr (by omega)

/-- A disk that is packed below `n` can be packed further, up to the log area. -/
lemma AllocRun.pack (m : Nat) : ∀ {s : State} {own : Nat → Prop} {n : Nat},
    AllocRun (fun _ => True) img s own → Volume s → s.log.busy = false → s.log.lh = [] →
    Packed n s → n + m = LOGSTART → ∃ s' own', AllocRun (fun _ => True) img s' own' ∧ Volume s' ∧
      s'.log.busy = false ∧ s'.log.lh = [] ∧ Packed LOGSTART s' := by
  induction m with
  | zero =>
    intro s own n h hv hb hlh hp hn
    rw [Nat.add_zero] at hn
    exact ⟨s, own, h, hv, hb, hlh, hn ▸ hp⟩
  | succ m ih =>
    intro s own n h hv hb hlh hp hn
    have hr1 := run_beginTrans hb
    obtain ⟨hv1, hsame1, hb1, hlh1, -⟩ := beginTrans_ok hv hr1
    have hp1 : Packed n _ := fun b hb => (hsame1.used_eq hb).trans (hp b hb)
    obtain ⟨s2, hr2, hv2, hp2⟩ := hp1.balloc hv1 hb1 (hlh1.trans hlh) (by omega)
    obtain ⟨s3, hr3, hv3, hsame3, hb3, hlh3⟩ := commitTrans_ok hv2
    exact ih (.commitTrans (.balloc (.beginTrans h hr1) trivial hr2) hr3) hv3 hb3 hlh3
      (fun b hb => (hsame3.used_eq hb).trans (hp2 b hb)) (by omega)

/-- After boot the disk is packed. -/
lemma packed_boot {files : List Mkfs.HostFile} (himg : Mkfs.main files = some img)
    (hlen : files.length + 2 ≤ Mkfs.INODEROOM) : Packed img.freeblock (boot img.sect) := by
  obtain ⟨r, a, hr, ha, hu, rfl⟩ := Mkfs.main_eq himg
  obtain ⟨hp, -, hcount, hmax, -⟩ := Mkfs.packed_files hr ha hu hlen
  rw [hcount]
  exact fun b hb => Mkfs.used_bitmap (hp.fresh.winode (by decide)) hmax hb

end Full

/-- On the image without host files, `balloc` calls alone fill the data area, and the next call
returns the first block of the log. -/
theorem balloc_returns_log_block : ∃ img s own s', Mkfs.main [] = some img ∧
    AllocRun (fun _ => True) img s own ∧
    (balloc ROOTDEV).run s = .ok (Mkfs.size - Mkfs.nlog) s' ∧ Reserved (Mkfs.size - Mkfs.nlog) := by
  obtain ⟨img, himg⟩ : ∃ img, Mkfs.main [] = some img :=
    Option.isSome_iff_exists.mp (by decide +kernel)
  have hlt := mkfs_freeblock_le himg
  obtain ⟨s, own, h, hv, hb, hlh, hp⟩ := AllocRun.pack (LOGSTART - img.freeblock)
    (AllocRun.boot : AllocRun (fun _ => True) img _ _) (Mkfs.volume_boot himg (by decide)) rfl rfl
    (packed_boot himg (by decide)) (Nat.add_sub_cancel' (hlt.le.trans (by decide)))
  have hr1 := run_beginTrans hb
  obtain ⟨hv1, hsame1, hb1, hlh1, -⟩ := beginTrans_ok hv hr1
  have hp1 : Packed LOGSTART _ := fun b hb => (hsame1.used_eq hb).trans (hp b hb)
  have hsize : LOGSTART < FSSIZE := by decide
  obtain ⟨r, s', hr, rfl⟩ := wp_total (wp_balloc_first (Q := fun r _ => r = LOGSTART)
    (E := fun _ _ => False) hv1.toLayout
    (.inl ⟨⟨hb1, by rw [hlh1, hlh]; decide⟩, LOGSTART, hsize, hp1.clear hsize⟩)
    fun r hr hfree hleast _ _ _ => hp1.first hr hsize hfree hleast)
  exact ⟨img, _, own, s', himg, .beginTrans h hr1, hr,
    .inr (.inr (.inr (.inr ⟨le_rfl, by decide⟩)))⟩

/-- The first `balloc` on the image without host files. -/
theorem balloc_not_reserved_first : ∃ img s own r s', Mkfs.main [] = some img ∧
    AllocRun DataFree img s own ∧ DataFree s ∧ (balloc ROOTDEV).run s = .ok r s' ∧
    ¬ Reserved r := by
  obtain ⟨img, himg⟩ : ∃ img, Mkfs.main [] = some img :=
    Option.isSome_iff_exists.mp (by decide +kernel)
  have hlt : img.freeblock < LOGSTART := (mkfs_freeblock_le himg).trans (by decide)
  have hv := Mkfs.volume_boot himg (by decide)
  have hr1 := run_beginTrans (s := boot img.sect) rfl
  obtain ⟨hv1, hsame1, hb1, hlh1, -⟩ := beginTrans_ok hv hr1
  have hp1 : Packed img.freeblock _ := fun b hb =>
    (hsame1.used_eq hb).trans (packed_boot himg (by decide) b hb)
  obtain ⟨s', hr, -⟩ := hp1.balloc hv1 hb1 hlh1 hlt
  have hrun : AllocRun DataFree img _ _ := .beginTrans .boot hr1
  have hfree : DataFree { boot img.sect with log := { (boot img.sect).log with busy := true } } :=
    ⟨img.freeblock, hlt, hp1.clear (hlt.trans (by decide))⟩
  exact ⟨img, _, _, _, s', himg, hrun, hfree, hr,
    balloc_not_reserved himg (by decide) hrun hfree hr⟩

end Xv6
