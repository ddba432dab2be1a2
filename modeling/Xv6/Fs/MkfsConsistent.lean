import Xv6.Fs.MkfsReads

/-!
# Consistency of the images of `mkfs`

The bitmap marks the metadata blocks and the blocks that inodes refer to, no block is referred to
twice, and every inode has the blocks that its size asks for. `mkfs` rounds the size of the root
directory up to one block more than it fills, so that with 30, 62, … host files the last block of
the root directory does not exist; and inodes past the inode blocks land in the bitmap.
-/

namespace Xv6

open Lib Prog Mkfs List

/-- What `usedblocks` counts at first: block 0, the super block, the inode blocks and the bitmap
blocks. -/
def Metadata (b : Nat) : Prop :=
  b = 0 ∨ b = 1 ∨ (∃ i < INODEROOM, b = IBLOCK i) ∨
    ∃ j < bitblocks, b = ninodes / IPB + 3 + j

/-- No entry of the root directory has this name. -/
def AbsentInRoot (files : List HostFile) (name : List Byte) : Prop :=
  ∀ e ∈ rootEntries files, namecmp (cstr name) (direntName (mkDirent e.1 e.2)) ≠ 0

/-- The image has the inodes 1, 2, … for the root directory and the host files. -/
def Allocated (files : List HostFile) (i : Nat) : Prop := 1 ≤ i ∧ i < files.length + 2

/-- Pointer `q` of inode `i` in the image: an address, the indirect block or one of its entries. -/
def imagePtr (img : Image) (i q : Nat) : Nat := ptr img.sect (dinode img.sect i).addrs q

/-- A consistent image. -/
structure Consistent (files : List HostFile) (img : Image) : Prop where
  type : ∀ i, Allocated files i →
    (dinode img.sect i).type = if i = ROOTINO then T_DIR else T_FILE
  bitmap : ∀ b < Mkfs.size, used img.sect b = true ↔
    Metadata b ∨ ∃ i q, Allocated files i ∧ imagePtr img i q = b
  once : ∀ i j q r, Allocated files i → Allocated files j → imagePtr img i q ≠ 0 →
    imagePtr img i q = imagePtr img j r → i = j ∧ q = r
  mapped : ∀ i, Allocated files i → ∀ bn, bn * BSIZE < (dinode img.sect i).size →
    imagePtr img i (posOf bn) ≠ 0
  /-- A search of the root directory for a name that it does not have changes nothing. -/
  lookup : ∃ s, (ilock 0).run (boot img.sect) = .ok () s ∧
    ∀ name, AbsentInRoot files name → (dirlookup 0 name).run s = .ok none s

lemma metadata_iff {b : Nat} : Metadata b ↔ b < DATASTART := by
  have hd : DATASTART = 39 := rfl
  have hi : INODEROOM = 208 := rfl
  have hb : bitblocks = 11 := rfl
  have hn : ninodes / IPB + 3 = 28 := rfl
  unfold Metadata
  constructor
  · rintro (rfl | rfl | ⟨i, hlt, rfl⟩ | ⟨j, hlt, rfl⟩)
    · omega
    · omega
    · rw [IBLOCK_eq]
      omega
    · omega
  · intro h
    by_cases h1 : b ≤ 1
    · omega
    · by_cases h2 : b < 28
      · exact .inr (.inr (.inl ⟨8 * (b - 2), by omega, by rw [IBLOCK_eq]; omega⟩))
      · exact .inr (.inr (.inr ⟨b - 28, by omega, by omega⟩))

section Image

variable {files : List HostFile} {a img : Image} {F : Nat → Node} {i j q r : Nat}

/-! ### The blocks of the inodes -/

lemma Finished.imagePtr_eq (h : Finished F a img) (hfree : a.freeinode = files.length + 2)
    (hi : Allocated files i) : imagePtr img i q = ptrs a.sect (imgAddrs a) (i, q) := by
  have hlt : i < a.freeinode := hfree ▸ hi.2
  unfold ptrs imgAddrs
  rw [if_pos ⟨hi.1, hlt⟩]
  exact h.ptr_eq hi.1 hlt q

/-- The bits set are those of the metadata blocks and of the blocks of inodes. -/
lemma Finished.used_iff (h : Finished F a img) (hfree : a.freeinode = files.length + 2)
    {b : Nat} (hb : b < Mkfs.size) : Xv6.used img.sect b = true ↔
      Metadata b ∨ ∃ i q, Allocated files i ∧ imagePtr img i q = b := by
  rw [h.used b hb, decide_eq_true_iff, metadata_iff]
  constructor
  · intro hlt
    by_cases hd : b < DATASTART
    · exact .inl hd
    · obtain ⟨⟨i, q⟩, hx⟩ := h.filled.covers b ⟨Nat.le_of_not_lt hd, hlt⟩
      have hi : Allocated files i := by
        by_contra hi
        unfold ptrs imgAddrs at hx
        rw [if_neg (hfree ▸ hi)] at hx
        have h0 : ptr a.sect (fun _ => 0) q = 0 := by
          rcases Nat.lt_or_ge NDIRECT q with hq | hq
          · exact ptr_of_no_indirect hq rfl
          · exact ptr_direct hq
        have hb0 : b = 0 := hx.symm.trans h0
        exact hd (hb0 ▸ by decide)
      exact .inr ⟨i, q, hi, (h.imagePtr_eq hfree hi).trans hx⟩
  · rintro (hd | ⟨i, q, hi, rfl⟩)
    · exact hd.trans_le h.packed.fresh.lo
    · rw [h.imagePtr_eq hfree hi]
      by_cases h0 : ptrs a.sect (imgAddrs a) (i, q) = 0
      · have hlo := h.packed.fresh.lo
        simp only [DATASTART] at hlo
        omega
      · exact (h.packed.ptrs.valid (i, q) h0).2

/-- No block is referred to twice. -/
lemma Finished.once (h : Finished F a img) (hfree : a.freeinode = files.length + 2)
    (hi : Allocated files i) (hj : Allocated files j) (hq : imagePtr img i q ≠ 0)
    (heq : imagePtr img i q = imagePtr img j r) : i = j ∧ q = r := by
  rw [h.imagePtr_eq hfree hi] at hq heq
  rw [h.imagePtr_eq hfree hj] at heq
  exact Prod.mk.inj (h.packed.ptrs.inj (i, q) (j, r) hq heq)

/-- The root directory with its last block filled up by empty entries. -/
def paddedRoot (files : List HostFile) : List (Nat × List Byte) :=
  rootEntries files ++ List.replicate (32 - (files.length + 2) % 32) (0, [])

lemma length_paddedRoot : (paddedRoot files).length = ((files.length + 2) / 32 + 1) * 32 := by
  rw [paddedRoot, length_append, length_rootEntries, length_replicate]
  omega

lemma dirents_append (l1 l2 : List (Nat × List Byte)) :
    dirents (l1 ++ l2) = dirents l1 ++ dirents l2 := flatMap_append

lemma dirents_replicate (n : Nat) : dirents (List.replicate n (0, [])) =
    List.replicate (DIRENTSIZE * n) 0 := by
  have h0 : mkDirent 0 [] = List.replicate DIRENTSIZE 0 := rfl
  induction n with
  | zero => rfl
  | succ n ih =>
    rw [replicate_succ, dirents, flatMap_cons, h0]
    change _ ++ dirents _ = _
    rw [ih, Nat.mul_succ, Nat.add_comm, replicate_add]

/-- The size of the root directory. -/
lemma size_root (h : main files = some img) (hlen : files.length + 2 ≤ INODEROOM) :
    (dinode img.sect ROOTINO).size = ((files.length + 2) / 32 + 1) * 512 := by
  obtain ⟨a, hf, hfree⟩ := finished_main h hlen
  have hs := hf.packed.file ROOTINO (by decide) (by simp only [ROOTINO]; omega)
  have hsize := congrArg Dinode.size (hf.dinode ROOTINO (by decide))
  rw [hs.size, if_pos rfl, root_node] at hsize
  rw [hsize, show (⟨T_DIR, 0, 0, 1, dirents (rootEntries files)⟩ : Node).data.length = _ from
    length_dirents _, length_rootEntries]
  simp only [DIRENTSIZE, DIRSIZ, BSIZE]
  omega

/-- If the root directory does not fill its last block, the kernel finds it with empty entries up
to its size. -/
lemma nodeAt_paddedRoot (h : main files = some img) (hlen : files.length + 2 ≤ INODEROOM)
    (hmod : (files.length + 2) % 32 ≠ 0) :
    NodeAt img.sect ROOTINO ⟨T_DIR, 0, 0, 1, dirents (paddedRoot files)⟩ := by
  obtain ⟨a, hf, hfree⟩ := finished_main h hlen
  have hlt : ROOTINO < a.freeinode := by
    rw [hfree]
    simp only [ROOTINO]
    omega
  have hroot : addNodes rootNodes 2 files ROOTINO = _ := root_node
  have hn : DIRENTSIZE * (files.length + 2) = (addNodes rootNodes 2 files ROOTINO).data.length := by
    rw [hroot, ← length_rootEntries]
    exact (length_dirents _).symm
  have hds : DIRENTSIZE = 16 := rfl
  have hdraft := hf.packed.draft_root hlt hn (by simp only [hds, BSIZE]; omega)
  have hpad : (addNodes rootNodes 2 files ROOTINO).data ++ List.replicate
      ((DIRENTSIZE * (files.length + 2) / BSIZE + 1) * BSIZE - DIRENTSIZE * (files.length + 2)) 0 =
      dirents (paddedRoot files) := by
    rw [hroot, paddedRoot, dirents_append, dirents_replicate]
    congr 2
    simp only [hds, BSIZE]
    omega
  rw [hpad] at hdraft
  have hnode := hf.nodeAt (D := dirents (paddedRoot files)) (by decide) hlt hdraft.length ?_
    fun o ho => ?_
  · rwa [hroot] at hnode
  · rw [size_root h hlen, length_dirents, length_paddedRoot, hds]
    omega
  · have hptr : ∀ p, ptr a.sect (dinode a.sect ROOTINO).addrs p =
        ptr a.sect (rinode a ROOTINO).addrs p := fun p => ptr_cutAddrs ..
    obtain ⟨hb, hbyte⟩ := hdraft.bytes o ho
    unfold HasBlock at hb ⊢
    rw [hptr]
    exact ⟨hb, (byteAt_congr (hptr _) rfl).trans hbyte⟩

/-- Every inode has the blocks below its size, unless the root directory ends at the end of a
block. -/
lemma mapped_main (h : main files = some img) (hlen : files.length + 2 ≤ INODEROOM)
    (hmod : (files.length + 2) % 32 ≠ 0) (hi : Allocated files i) {bn : Nat}
    (hbn : bn * BSIZE < (dinode img.sect i).size) : imagePtr img i (posOf bn) ≠ 0 := by
  have hblock : ∀ {N : Node}, NodeAt img.sect i N → bn * BSIZE < N.data.length →
      imagePtr img i (posOf bn) ≠ 0 := by
    intro N hN hlt
    have hb := (hN.bytes _ hlt).1
    unfold HasBlock at hb
    rwa [Nat.mul_div_cancel _ (by decide)] at hb
  by_cases hroot : i = ROOTINO
  · subst hroot
    refine hblock (nodeAt_paddedRoot h hlen hmod) ?_
    change _ < (dirents (paddedRoot files)).length
    rw [size_root h hlen] at hbn
    rw [length_dirents, length_paddedRoot]
    simp only [DIRENTSIZE, DIRSIZ, BSIZE] at *
    omega
  · obtain ⟨hN, hsize⟩ := nodeAt_main h hlen hi.1 hi.2
    exact hblock hN (hsize hroot ▸ hbn)

/-! ### Searching the root directory -/

/-- The root directory is locked, as it is in `namex`. -/
lemma run_ilock_root (h : main files = some img) (hlen : files.length + 2 ≤ INODEROOM) :
    ∃ s, (ilock 0).run (boot img.sect) = .ok () s ∧ s.sector = img.sect ∧ s.disksize = FSSIZE ∧
      s.log.busy = false ∧ Loaded s 0 ROOTINO := by
  have hN := (nodeAt_main h hlen (i := ROOTINO) (by decide) (by simp only [ROOTINO]; omega)).1
  have hready : Ready img.sect (boot img.sect) 0 ROOTINO :=
    ⟨rfl, rfl, rfl, rfl, by simp [boot], by simp [boot], fun hv => by simp [boot] at hv⟩
  obtain ⟨s, hrun, h1, h2, h3, -⟩ := hready.run_ilock hN (disksize_boot h hlen)
  refine ⟨s, hrun, h1, h2, ?_, h3⟩
  rw [run_ilock hready.ref hready.busy hready.dev ?_ fun _ => ?_] at hrun
  · obtain ⟨-, rfl⟩ := Res.ok.inj hrun
    rfl
  · rw [hready.inum, disksize_boot h hlen]
    exact hN.block
  · rw [hready.inum, hready.sector, hN.type]
    exact hN.used

/-- An entry that is empty or has another name is passed over. -/
lemma skip_paddedRoot {name : List Byte} (habs : AbsentInRoot files name) :
    ∀ e ∈ paddedRoot files, ¬(direntInum (mkDirent e.1 e.2) ≠ 0 ∧
      namecmp (cstr name) (direntName (mkDirent e.1 e.2)) = 0) := by
  intro e he hc
  rcases mem_append.mp he with he | he
  · exact habs e he hc.2
  · rw [eq_of_mem_replicate he] at hc
    exact hc.1 rfl

/-- A search for a name that is not there ends at the end of the directory. -/
lemma run_dirlookup_absent (h : main files = some img) (hlen : files.length + 2 ≤ INODEROOM)
    (hmod : (files.length + 2) % 32 ≠ 0) {s : State} (hs : s.sector = img.sect)
    (hd : s.disksize = FSSIZE) (hl : Loaded s 0 ROOTINO) {name : List Byte}
    (habs : AbsentInRoot files name) : (dirlookup 0 name).run s = .ok none s := by
  have hN := hs ▸ nodeAt_paddedRoot h hlen hmod
  have hsize : (s.inode 0).size = ((files.length + 2) / 32 + 1) * 512 :=
    hl.size.trans (hs ▸ size_root h hlen)
  have hlen' : (paddedRoot files).length = _ := length_paddedRoot
  have hds : DIRENTSIZE = 16 := rfl
  refine run_bind_ok (run_read _) ?_
  rw [if_neg (not_not.mpr (hl.type hN)),
    show (s.inode 0).size + 1 =
      (paddedRoot files).length + ((s.inode 0).size - (paddedRoot files).length + 1) by omega,
    hl.run_dirlookupLoop hN hd rfl rfl le_rfl
      fun j hj => skip_paddedRoot habs _ (getElem_mem hj)]
  refine run_bind_ok (run_read _) ?_
  rw [if_neg (by rw [hds]; omega)]
  rfl

/-! ### The block that is missing -/

/-- If the root directory fills its blocks, it has no block at the end of its size. -/
lemma imagePtr_root_eq_zero (h : main files = some img) (hlen : files.length + 2 ≤ INODEROOM)
    (hmod : (files.length + 2) % 32 = 0) :
    imagePtr img ROOTINO (posOf ((files.length + 2) / 32)) = 0 := by
  obtain ⟨a, hf, hfree⟩ := finished_main h hlen
  have hlt : ROOTINO < a.freeinode := by
    rw [hfree]
    simp only [ROOTINO]
    omega
  refine (hf.ptr_eq (by decide) hlt _).trans (hf.filled.noMore _ (by decide) hlt _ ?_)
  rw [root_node]
  change (dirents (rootEntries files)).length ≤ _
  rw [length_dirents, length_rootEntries]
  simp only [DIRENTSIZE, DIRSIZ, BSIZE]
  omega

/-- Outside a transaction `balloc` does not return. -/
lemma wp_balloc_outside {s : State} {dev : Nat} (hb : s.log.busy = false) :
    (balloc dev).wp (fun _ _ => False) (fun _ _ => True) s := by
  have hbread : ∀ {b : Nat} {α : Type} {f : Bytes → K α},
      (∀ bp, (f bp).wp (fun _ _ => False) (fun _ _ => True) s) →
      (bread dev b >>= f).wp (fun _ _ => False) (fun _ _ => True) s := by
    intro b α f hf
    rw [wp_bind, bread, wp_act, if_pos rfl]
    split_ifs
    · trivial
    · trivial
    · exact hf _
  have hloop : ∀ n sb b, (ballocLoop dev sb b n).wp (fun _ _ => False) (fun _ _ => True) s := by
    intro n
    induction n with
    | zero => intro _ _; trivial
    | succ n ih =>
      intro sb b
      refine hbread fun bp => ?_
      cases freeBit bp 0 (min BPB (sb.size - b)) with
      | none => exact ih sb _
      | some bi =>
        refine wp_bind.mpr ?_
        rw [logWrite, wp_act, if_pos rfl, hb]
        split_ifs <;> trivial
  unfold balloc readsb
  rw [bind_assoc]
  exact hbread fun bp => hloop _ _ _

/-- Outside a transaction the read of a directory entry in a missing block does not return. -/
lemma wp_readDirent_hole {s : State} {k bn : Nat} {e : Panic} (hb : s.log.busy = false)
    (ht : (s.inode k).type ≠ T_DEV) (hdirect : bn < NDIRECT) (h0 : addrsGet s.inode k bn = 0)
    (hsize : bn * BSIZE + BSIZE ≤ (s.inode k).size) :
    (readDirent k (bn * BSIZE) e).wp (fun _ _ => False) (fun _ _ => True) s := by
  have hread : readiLen (s.inode k).size (bn * BSIZE) DIRENTSIZE = some 16 := by
    have hds : DIRENTSIZE = 16 := rfl
    have hlt : bn * BSIZE < 2 ^ 31 := by
      simp only [BSIZE, NDIRECT] at *
      omega
    have hbs : BSIZE = 512 := rfl
    unfold readiLen
    rw [if_neg (by omega), if_neg (by omega)]
    rfl
  unfold readDirent readi
  rw [wp_bind, wp_read, if_neg ht, hread]
  dsimp only
  rw [wp_bind, readiLoop, if_neg (by decide), wp_read, Nat.mul_div_cancel _ (by decide), wp_bind,
    bmap, wp_read, if_pos hdirect, bmapAddr, wp_read, wp_read, h0, wp_bind]
  refine wp_of_run (run_modify _ _ _) ?_
  rw [if_pos rfl, wp_bind]
  exact wp_mono (wp_balloc_outside hb) (fun _ _ hf => hf.elim) fun _ _ he => he

/-- If the root directory fills its blocks, a search for a name that is not there runs into `balloc`
and, outside a transaction, does not return. -/
lemma wp_dirlookup_hole (h : main files = some img) (hlen : files.length + 2 ≤ INODEROOM)
    (hmod : (files.length + 2) % 32 = 0) {s : State} (hs : s.sector = img.sect)
    (hd : s.disksize = FSSIZE) (hb : s.log.busy = false) (hl : Loaded s 0 ROOTINO)
    {name : List Byte} (habs : AbsentInRoot files name) :
    (dirlookup 0 name).wp (fun _ _ => False) (fun _ _ => True) s := by
  have hN := (nodeAt_main h hlen (i := ROOTINO) (by decide) (by simp only [ROOTINO]; omega)).1
  rw [root_node, ← hs] at hN
  have htype : (s.inode 0).type = T_DIR := hl.type hN
  have hsize : (s.inode 0).size = ((files.length + 2) / 32 + 1) * 512 :=
    hl.size.trans (hs ▸ size_root h hlen)
  have hlen' : (rootEntries files).length = _ := length_rootEntries
  have hptr := imagePtr_root_eq_zero h hlen hmod
  obtain ⟨bn, hbn⟩ : ∃ bn, bn = (files.length + 2) / 32 := ⟨_, rfl⟩
  rw [← hbn] at hptr hsize
  have hdirect : bn < NDIRECT := by
    simp only [INODEROOM, NDIRECT] at *
    omega
  have h0 : addrsGet s.inode 0 bn = 0 := by
    have hd := congrArg (fun d : Dinode => ptr s.sector d.addrs (posOf bn)) hl.dinode
    rw [addrsGet_of_lt (Nat.lt_succ_of_lt hdirect)]
    have hcut : ptr s.sector (s.inode 0).addrs (posOf bn) = (s.inode 0).addrs bn :=
      ptr_posOf_direct hdirect
    refine hcut.symm.trans ((ptr_cutAddrs ..).symm.trans (hd.trans ?_))
    rw [hs]
    exact hptr
  have hoff : DIRENTSIZE * (rootEntries files).length = bn * BSIZE := by
    rw [hlen']
    simp only [DIRENTSIZE, DIRSIZ, BSIZE]
    omega
  have hskip := hl.run_dirlookupLoop hN hd rfl rfl le_rfl
    (fun j hj hc => habs _ (getElem_mem hj) hc.2)
    ((s.inode 0).size - (rootEntries files).length + 1)
  have hloop : (dirlookupLoop 0 name (bn * BSIZE)
      ((s.inode 0).size - (rootEntries files).length + 1)).wp (fun _ _ => False)
        (fun _ _ => True) s := by
    rw [dirlookupLoop, wp_read, if_pos (by simp only [BSIZE]; omega), wp_bind]
    refine wp_mono (wp_readDirent_hole hb ?_ hdirect h0 ?_) (fun _ _ hf => hf.elim)
      fun _ _ he => he
    · rw [htype]
      decide
    · simp only [BSIZE]
      omega
  unfold dirlookup
  rw [wp_read, if_neg (not_not.mpr htype),
    show (s.inode 0).size + 1 = (rootEntries files).length +
      ((s.inode 0).size - (rootEntries files).length + 1) by omega]
  unfold wp
  rw [hskip, hoff]
  exact hloop

/-- An inode past the inode blocks lies in the first bitmap block, whose first bit is set. -/
lemma type_past_inodes (h : main files = some img) :
    (dinode img.sect INODEROOM).type ≠ T_FILE := by
  obtain ⟨r, a, hr, ha, hu, rfl⟩ := main_eq h
  have hpos : 0 < a.usedblocks := by
    have hadv := (advances_root hr).trans (advances_addFiles ha)
    have h1 := hadv.1
    have h2 := hadv.2
    have h3 : blank.usedblocks = 39 := rfl
    have h4 : blank.freeblock = 39 := rfl
    omega
  obtain ⟨bits, hbits⟩ : ∃ bits, bits = (List.range a.usedblocks).foldl setBit zeroes := ⟨_, rfl⟩
  have hset : bitSet bits 0 = true := by
    rw [hbits, bitSet_range]
    exact decide_eq_true hpos
  rw [← hbits]
  intro heq
  change BitVec.ofNat 16 (bits.le 0 2) = _ at heq
  have hodd : (bits 0).toNat % 2 = 1 := by
    have : bits 0 &&& 1#8 ≠ 0#8 := by simpa [bitSet] using hset
    rcases Nat.mod_two_eq_zero_or_one (bits 0).toNat with h0 | h1
    · refine absurd (BitVec.eq_of_toNat_eq ?_) this
      rw [BitVec.toNat_and]
      simpa [Nat.and_one_is_mod] using h0
    · exact h1
  have hle : bits.le 0 2 = (bits 0).toNat + 256 * (bits 1).toNat := by
    simp [Bytes.le]
  have := congrArg BitVec.toNat heq
  rw [BitVec.toNat_ofNat, hle] at this
  have hT : T_FILE.toNat = 2 := rfl
  rw [hT] at this
  omega

/-! ### The result -/

/-- The image is consistent exactly if all inodes lie in the inode blocks and the entries of the
root directory do not fill its last block. -/
theorem mkfs_consistent_iff (h : main files = some img) : Consistent files img ↔
    files.length + 2 ≤ INODEROOM ∧ (files.length + 2) % 32 ≠ 0 := by
  constructor
  · intro hc
    have hlen : files.length + 2 ≤ INODEROOM := by
      by_contra hlt
      have htype := hc.type INODEROOM ⟨by decide, Nat.lt_of_not_le hlt⟩
      exact type_past_inodes h (htype.trans (if_neg (by decide)))
    refine ⟨hlen, fun hmod => ?_⟩
    refine hc.mapped ROOTINO ⟨le_rfl, by simp only [ROOTINO]; omega⟩ _ ?_
      (imagePtr_root_eq_zero h hlen hmod)
    rw [size_root h hlen]
    simp only [BSIZE]
    omega
  · rintro ⟨hlen, hmod⟩
    obtain ⟨a, hf, hfree⟩ := finished_main h hlen
    obtain ⟨s, hrun, hs, hd, -, hl⟩ := run_ilock_root h hlen
    refine ⟨fun i hi => ?_, fun b hb => hf.used_iff hfree hb,
      fun i j q r hi hj => hf.once hfree hi hj, fun i hi bn => mapped_main h hlen hmod hi,
      s, hrun, fun name => run_dirlookup_absent h hlen hmod hs hd hl⟩
    obtain ⟨hN, -⟩ := nodeAt_main h hlen hi.1 hi.2
    rw [hN.type]
    split_ifs with hroot
    · rw [hroot, root_node]
    · have h1 := hi.1
      have h2 := hi.2
      simp only [ROOTINO] at hroot
      obtain ⟨j, rfl⟩ : ∃ j, i = 2 + j := ⟨i - 2, by omega⟩
      rw [addNodes_file (by omega) (by decide)]

/-- The image with a host file of three bytes and an empty one is consistent. -/
theorem mkfs_consistent_iff_two_files : ∃ img, main [⟨[97], [1, 2, 3]⟩, ⟨[98], []⟩] = some img ∧
    Consistent [⟨[97], [1, 2, 3]⟩, ⟨[98], []⟩] img := by
  obtain ⟨img, himg⟩ : ∃ img, main [⟨[97], [1, 2, 3]⟩, ⟨[98], []⟩] = some img :=
    Option.isSome_iff_exists.mp (by decide +kernel)
  exact ⟨img, himg, (mkfs_consistent_iff himg).mpr (by decide)⟩

end Image

/-! ### Thirty host files -/

section Thirty

variable {fbn : Nat}

lemma iappendBlock_some (img : Image) (din : Dinode) (h : fbn < SMALLFILE) : ∃ x din' img',
    iappendBlock img din fbn = some (x, din', img') ∧ img'.freeblock ≤ img.freeblock + 2 := by
  have hmax : ¬ MAXFILE ≤ fbn := Nat.not_le.mpr (h.trans (by decide))
  unfold iappendBlock
  rw [if_neg hmax]
  by_cases h1 : fbn < NDIRECT
  · rw [if_pos h1]
    split_ifs
    · exact ⟨_, _, _, rfl, Nat.le_succ _⟩
    · exact ⟨_, _, _, rfl, Nat.le_add_right _ _⟩
  · rw [if_neg h1, if_neg (by simp only [SMALLFILE, NDIRECT, NINDIRECT] at *; omega)]
    by_cases h2 : din.addrs NDIRECT = 0
    · simp only [if_pos h2]
      split_ifs
      · exact ⟨_, _, _, rfl, le_rfl⟩
      · exact ⟨_, _, _, rfl, Nat.le_succ _⟩
    · simp only [if_neg h2]
      split_ifs
      · exact ⟨_, _, _, rfl, Nat.le_succ _⟩
      · exact ⟨_, _, _, rfl, Nat.le_add_right _ _⟩

lemma iappendLoop_some (fuel : Nat) : ∀ (img : Image) (din : Dinode) (off : Nat) (xp : List Byte),
    off + xp.length ≤ SMALLFILE * BSIZE → ∃ din' off' img',
      iappendLoop img din off xp fuel = some (din', off', img') ∧
        img'.freeblock ≤ img.freeblock + 2 * fuel := by
  induction fuel with
  | zero => exact fun _ _ _ _ _ => ⟨_, _, _, rfl, le_rfl⟩
  | succ fuel ih =>
    intro img din off xp hlen
    unfold iappendLoop
    split_ifs with h0
    · exact ⟨_, _, _, rfl, Nat.le_add_right _ _⟩
    · have hfbn : off / 512 < SMALLFILE := by
        simp only [SMALLFILE, NDIRECT, NINDIRECT, BSIZE] at *
        omega
      obtain ⟨x, din1, img1, h1, hle1⟩ := iappendBlock_some img din hfbn
      simp only [h1]
      obtain ⟨din2, off2, img2, h2, hle2⟩ := ih (wsect img1 x _) din1
        (off + min xp.length ((off / 512 + 1) * 512 - off))
        (xp.drop (min xp.length ((off / 512 + 1) * 512 - off))) (by
          rw [length_drop]
          omega)
      exact ⟨din2, off2, img2, h2, hle2.trans (by change img1.freeblock + _ ≤ _; omega)⟩

lemma iappend_some {img : Image} {i : Nat} {xp : List Byte}
    (h : (rinode img i).size + xp.length ≤ SMALLFILE * BSIZE) :
    ∃ img', iappend img i xp = some img' ∧ img'.freeblock ≤ img.freeblock + 2 * xp.length := by
  obtain ⟨din, off, img1, h1, hle⟩ := iappendLoop_some xp.length img (rinode img i) _ _ h
  unfold iappend
  simp only [h1]
  exact ⟨_, rfl, hle⟩

/-- Empty host files are added as long as the root directory can hold their entries. -/
lemma addFiles_some (fs : List HostFile) (hfs : ∀ f ∈ fs, slash ∉ f.name ∧ f.data = []) :
    ∀ {img : Image} {F : Nat → Node}, Mkfs.Packed img F → ROOTINO < img.freeinode →
      img.freeinode + fs.length ≤ INODEROOM →
      (F ROOTINO).data.length + 16 * fs.length ≤ SMALLFILE * BSIZE →
      img.freeblock + 32 * fs.length < 4096 →
      ∃ img', addFiles img fs = some img' ∧ img'.freeblock ≤ img.freeblock + 32 * fs.length := by
  induction fs with
  | nil => exact fun _ _ _ _ _ => ⟨_, rfl, le_rfl⟩
  | cons f fs ih =>
    intro img F h hroot hroom hlen hmax
    rw [length_cons] at hroom hlen hmax
    obtain ⟨hslash, hdata⟩ := hfs f mem_cons_self
    have hne : ROOTINO ≠ img.freeinode := Nat.ne_of_lt hroot
    obtain ⟨h1, hi1, -⟩ := h.ialloc T_FILE (by omega) (by decide) (by omega)
    have hsize : (rinode (Mkfs.ialloc img T_FILE).2 ROOTINO).size = (F ROOTINO).data.length := by
      have hs := (h1.file ROOTINO (by decide) (by omega)).size
      rw [upd_ne hne] at hs
      exact hs
    have hde : (mkDirent (Mkfs.ialloc img T_FILE).1 f.imgName).length = 16 := length_mkDirent ..
    have hfit : (rinode (Mkfs.ialloc img T_FILE).2 ROOTINO).size +
        (mkDirent (Mkfs.ialloc img T_FILE).1 f.imgName).length ≤ SMALLFILE * BSIZE := by
      rw [hsize, hde]
      omega
    obtain ⟨img1, ha, hle⟩ := iappend_some hfit
    rw [hde] at hle
    have hle : img1.freeblock ≤ img.freeblock + 32 := hle
    have hadd : addFile img f = some img1 := by
      unfold addFile
      rw [if_neg hslash]
      simp only [ha, hdata]
      rfl
    obtain ⟨h2, hi2, -⟩ := h.addFile hroot (by omega) hadd (by omega)
    obtain ⟨img', hr, hle'⟩ := ih (fun g hg => hfs g (mem_cons_of_mem _ hg)) h2 (by omega)
      (by omega) (by
        rw [addNode, upd_ne hne, upd_same, length_append, length_mkDirent]
        omega) (by omega)
    unfold addFiles
    simp only [hadd]
    exact ⟨img', hr, by rw [length_cons]; omega⟩

/-- Thirty empty host files. -/
def thirtyFiles : List HostFile := (List.range 30).map fun i => ⟨[BitVec.ofNat 8 (97 + i)], []⟩

lemma main_thirtyFiles : ∃ img, main thirtyFiles = some img := by
  obtain ⟨r, hr, hfree⟩ : ∃ r, root = some r ∧ r.freeblock = 40 :=
    Option.map_eq_some_iff.mp (show root.map Image.freeblock = some 40 by decide +kernel)
  obtain ⟨hp, hi, -⟩ := packed_root hr (by omega)
  have hlen : thirtyFiles.length = 30 := rfl
  obtain ⟨a, ha, hle⟩ := addFiles_some thirtyFiles (by decide) hp (by rw [hi]; decide)
    (by rw [hi]; decide) (by decide) (by omega)
  have hused : a.usedblocks < 512 * 8 := by
    have hadv := ((advances_root hr).trans (advances_addFiles ha)).2
    have h2 : blank.freeblock = blank.usedblocks := rfl
    omega
  unfold main Mkfs.balloc
  simp only [hr, ha]
  exact ⟨_, if_pos hused⟩

/-- With thirty host files the second block of the root directory is missing, and the kernel does
not return from a search for a name that is not there. -/
theorem mkfs_root_block_missing : ∃ img s, main thirtyFiles = some img ∧
    ¬ Consistent thirtyFiles img ∧ (dinode img.sect ROOTINO).size = 2 * BSIZE ∧
    imagePtr img ROOTINO (posOf 1) = 0 ∧ (ilock 0).run (boot img.sect) = .ok () s ∧
    AbsentInRoot thirtyFiles [65] ∧ ∀ r s', (dirlookup 0 [65]).run s ≠ .ok r s' := by
  obtain ⟨img, himg⟩ := main_thirtyFiles
  obtain ⟨s, hrun, hs, hd, hb, hl⟩ := run_ilock_root himg (by decide)
  have hsize := size_root himg (by decide)
  have hzero := imagePtr_root_eq_zero himg (by decide) (by decide)
  have habs : AbsentInRoot thirtyFiles [65] := by
    unfold AbsentInRoot
    decide +kernel
  refine ⟨img, s, himg, fun hc => ?_, hsize, hzero, hrun, habs, fun r s' hr => ?_⟩
  · exact hc.mapped ROOTINO ⟨by decide, by decide⟩ 1 (by rw [hsize]; decide) hzero
  · exact wp_ok (wp_dirlookup_hole himg (by decide) (by decide) hs hd hb hl habs) hr

end Thirty

end Xv6
