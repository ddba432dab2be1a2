import Xv6.Fs.MkfsImage

/-!
# The image `mkfs` builds

The nodes of the image for a list of host files, and the state after boot on it. The inode area has
room for `ninodes` inodes; with more host files `mkfs` writes past it.
-/

namespace Xv6.Mkfs

open Lib List

/-- The nodes after host file `f` was added as inode `n`. -/
def addNode (N : Nat → Node) (n : Nat) (f : HostFile) : Nat → Node :=
  upd (upd N ROOTINO { N ROOTINO with data := (N ROOTINO).data ++ mkDirent n f.imgName }) n
    ⟨T_FILE, 0, 0, 1, f.data⟩

/-- The nodes after the host files were added as inodes `n`, `n+1`, …. -/
def addNodes (N : Nat → Node) (n : Nat) : List HostFile → Nat → Node
  | [] => N
  | f :: fs => addNodes (addNode N n f) (n + 1) fs

/-- The nodes of the image that holds only the root directory. -/
def rootNodes : Nat → Node :=
  upd (fun _ => {}) ROOTINO
    ⟨T_DIR, 0, 0, 1, mkDirent ROOTINO dot ++ mkDirent ROOTINO dotdot⟩

section Steps

variable {img img' : Image} {i : Nat} {xp : List Byte} {F : Nat → Node}

/-- `iappend` appends the bytes to the file. -/
lemma Packed.iappend (h : Packed img F) (hpos : 1 ≤ i) (hlt : i < img.freeinode)
    (hr : iappend img i xp = some img') (hmax : img'.freeblock < 2 ^ 32) :
    Packed img' (upd F i { F i with data := (F i).data ++ xp }) ∧
      img'.freeinode = img.freeinode ∧
      (Filled img F → Filled img' (upd F i { F i with data := (F i).data ++ xp })) := by
  have hs := h.file i hpos hlt
  have hsize : (rinode img i).size = (F i).data.length := hs.size
  unfold Mkfs.iappend at hr
  simp only [hsize] at hr
  cases hloop : iappendLoop img (rinode img i) (F i).data.length xp xp.length with
  | none => simp [hloop] at hr
  | some r =>
    obtain ⟨din, off, img1⟩ := r
    simp only [hloop, Option.some.injEq] at hr
    subst hr
    obtain ⟨hdraft, hfill⟩ := h.draft hpos hlt
    obtain ⟨⟨hd, hcov, hmore⟩, hoff, h1, h2, h3, h4⟩ := hdraft.iappendLoop le_rfl hloop hmax
    have hnode : (⟨din.type, din.major, din.minor, din.nlink, (F i).data ++ xp⟩ : Node) =
        { F i with data := (F i).data ++ xp } := by
      rw [h1.trans hs.type, h2.trans hs.major, h3.trans hs.minor, h4.trans hs.nlink]
    obtain ⟨hp, hfill'⟩ := hd.packed rfl h.but hpos hlt (h1.trans hs.type ▸ hs.used) hmax
    rw [hnode] at hp hfill'
    have hfill'' := fun hf => hfill' (hcov (hfill hf).1) (hmore (hfill hf).2)
      fun j _ h1 h2 => hf.noMore j h1 h2
    rw [length_append, ← hoff] at hp hfill''
    exact ⟨hp, hd.freeinode, hfill''⟩

lemma advances_iappend (hr : Mkfs.iappend img i xp = some img') :
    Advances img img' := by
  unfold Mkfs.iappend at hr
  cases hloop : iappendLoop img (rinode img i) (rinode img i).size xp xp.length with
  | none => simp [hloop] at hr
  | some r =>
    obtain ⟨din, off, img1⟩ := r
    simp only [hloop, Option.some.injEq] at hr
    subst hr
    have hadv := advances_iappendLoop hloop
    exact hadv

/-- `ialloc` takes the next inode. -/
lemma Packed.ialloc (h : Packed img F) (type : BitVec 16) (hi : img.freeinode < INODEROOM)
    (ht : type ≠ 0) (hmax : img.freeblock < 2 ^ 32) :
    Packed (ialloc img type).2 (upd F img.freeinode ⟨type, 0, 0, 1, []⟩) ∧
      (ialloc img type).2.freeinode = img.freeinode + 1 ∧
      (Filled img F →
        Filled (ialloc img type).2 (upd F img.freeinode ⟨type, 0, 0, 1, []⟩)) := by
  obtain ⟨n, hn⟩ : ∃ n, n = img.freeinode := ⟨_, rfl⟩
  obtain ⟨img1, h₁⟩ : ∃ img1 : Image, img1 = { img with freeinode := n + 1 } := ⟨_, rfl⟩
  have hsect : img1.sect = img.sect := by rw [h₁]
  have hfree : img1.freeinode = n + 1 := by rw [h₁]
  have haddr : ∀ j ≠ n, imgAddrs img1 j = imgAddrs img j := fun j hj => by
    unfold imgAddrs
    rw [hfree, hsect, ← hn]
    by_cases hr : 1 ≤ j ∧ j < n
    · rw [if_pos hr, if_pos (by omega)]
    · rw [if_neg hr, if_neg (by omega)]
  have hptrs : ∀ y, Xv6.ptrs img1.sect (upd (imgAddrs img1) n fun _ => 0) y =
      Xv6.ptrs img.sect (imgAddrs img) y := by
    rintro ⟨j, p⟩
    simp only [Xv6.ptrs]
    rw [hsect]
    by_cases hj : j = n
    · rw [hj, upd_same, imgAddrs, if_neg (by omega)]
    · rw [upd_ne hj, haddr j hj]
  have hzero : ∀ p, ptr img.sect (fun _ => 0) p = 0 := fun p => by
    rcases Nat.lt_or_ge NDIRECT p with hp | hp
    · exact ptr_of_no_indirect hp rfl
    · exact ptr_direct hp
  have hd : Draft (imgAddrs img1) n img1 img1 ⟨type, 0, 0, 1, 0, fun _ => 0⟩ [] := by
    refine ⟨⟨Nat.zero_le _, fun o ho => absurd ho (Nat.not_lt_zero o), fun o _ hb => ?_⟩, ?_, ?_,
      rfl, fun _ _ => rfl, fun _ _ _ => ⟨rfl, fun _ => rfl⟩⟩
    · unfold HasBlock at hb
      rw [hsect] at hb
      exact absurd (hzero _) hb
    · rw [h₁]
      exact ⟨h.fresh.counters, h.fresh.lo, h.fresh.super, h.fresh.bitmap, h.fresh.zero⟩
    · exact (h.ptrs.congr hptrs).mono fun b hb => by rw [h₁]; exact hb
  have hbut : PackedBut n img1 F := by
    refine ⟨by omega, by omega, fun j hj hjn => ?_, fun j q hj => ?_, fun j hj h1 h2 => ?_,
      fun j hj => h.none j (by omega)⟩
    · rw [hsect]
      exact h.free j (by omega) hjn
    · rw [hsect, haddr j hj]
      exact fun hq => (h.ptrs.valid (j, q) hq).1
    · rw [hsect]
      exact h.file j h1 (by omega)
  have hpos := h.pos
  obtain ⟨hp, hfill⟩ := hd.packed rfl hbut (by omega) (by omega) ht (by rw [h₁]; exact hmax)
  have hfill : Filled img F → Filled _ _ := fun hf => by
    refine hfill (hf.covers.congr hptrs (by rw [h₁])) (fun bn _ => ?_) fun j hj h1 h2 bn hbn => ?_
    · rw [hsect]
      exact hzero _
    · rw [hsect]
      exact hf.noMore j h1 (by omega) bn hbn
  rw [h₁, hn] at hp hfill
  exact ⟨hp, rfl, hfill⟩

end Steps

/-! ### The host files -/

section Files

variable {img img' : Image} {i : Nat} {data : List Byte} {fuel : Nat} {f : HostFile}

lemma advances_copyFile : ∀ {img : Image} {data : List Byte},
    copyFile img i data fuel = some img' → Advances img img' := by
  induction fuel with
  | zero =>
    intro img data hr
    exact Option.some.inj hr ▸ Advances.refl _
  | succ fuel ih =>
    intro img data hr
    unfold copyFile at hr
    split at hr
    · exact Option.some.inj hr ▸ Advances.refl _
    · cases ha : Mkfs.iappend img i (data.take 512) with
      | none => simp [ha] at hr
      | some img1 =>
        simp only [ha] at hr
        exact (advances_iappend ha).trans (ih hr)

/-- `main` copies a host file 512 bytes at a time. -/
lemma Packed.copyFile : ∀ {img : Image} {data : List Byte} {F : Nat → Node}, Packed img F →
    1 ≤ i → i < img.freeinode → data.length ≤ fuel → copyFile img i data fuel = some img' →
    img'.freeblock < 2 ^ 32 →
    Packed img' (upd F i { F i with data := (F i).data ++ data }) ∧
      img'.freeinode = img.freeinode ∧
      (Filled img F → Filled img' (upd F i { F i with data := (F i).data ++ data })) := by
  induction fuel with
  | zero =>
    intro img data F h _ _ hfuel hr _
    obtain rfl : data = [] := length_eq_zero_iff.mp (by omega)
    obtain rfl := Option.some.inj hr
    rw [append_nil, upd_eq_self]
    exact ⟨h, rfl, id⟩
  | succ fuel ih =>
    intro img data F h hpos hlt hfuel hr hmax
    unfold Mkfs.copyFile at hr
    by_cases h0 : data.length = 0
    · rw [if_pos h0] at hr
      obtain rfl : data = [] := length_eq_zero_iff.mp h0
      obtain rfl := Option.some.inj hr
      rw [append_nil, upd_eq_self]
      exact ⟨h, rfl, id⟩
    rw [if_neg h0] at hr
    cases ha : Mkfs.iappend img i (data.take 512) with
    | none => simp [ha] at hr
    | some img1 =>
      simp only [ha] at hr
      obtain ⟨h₁, hi1, hf1⟩ := h.iappend hpos hlt ha ((advances_copyFile hr).1.trans_lt hmax)
      obtain ⟨h₂, hi2, hf2⟩ := ih h₁ hpos (hi1 ▸ hlt) (by rw [length_drop]; omega) hr hmax
      rw [upd_upd, upd_same] at h₂ hf2
      simp only [append_assoc, take_append_drop] at h₂ hf2
      exact ⟨h₂, hi2.trans hi1, fun hf => hf2 (hf1 hf)⟩

/-- One turn of the loop of `main`, if it succeeds. -/
lemma addFile_some (hr : addFile img f = some img') : slash ∉ f.name ∧ ∃ img1,
    Mkfs.iappend (Mkfs.ialloc img T_FILE).2 ROOTINO
      (mkDirent (Mkfs.ialloc img T_FILE).1 f.imgName) = some img1 ∧
    copyFile img1 (Mkfs.ialloc img T_FILE).1 f.data f.data.length = some img' := by
  unfold addFile at hr
  split_ifs at hr with hs
  dsimp only at hr
  split at hr
  · cases hr
  next img1 ha => exact ⟨hs, img1, ha, hr⟩

/-- The loop of `main`, if it succeeds. -/
lemma addFiles_cons {fs : List HostFile} (hr : addFiles img (f :: fs) = some img') :
    ∃ img1, addFile img f = some img1 ∧ addFiles img1 fs = some img' := by
  unfold addFiles at hr
  split at hr
  · cases hr
  next img1 ha => exact ⟨img1, ha, hr⟩

lemma advances_addFile (hr : addFile img f = some img') : Advances img img' := by
  obtain ⟨-, img1, ha, hc⟩ := addFile_some hr
  have hadv := advances_iappend ha
  exact hadv.trans (advances_copyFile hc)

lemma advances_addFiles {fs : List HostFile} : ∀ {img : Image},
    addFiles img fs = some img' → Advances img img' := by
  induction fs with
  | nil =>
    intro img hr
    exact Option.some.inj hr ▸ Advances.refl _
  | cons f fs ih =>
    intro img hr
    obtain ⟨img1, ha, hr⟩ := addFiles_cons hr
    exact (advances_addFile ha).trans (ih hr)

/-- One host file becomes one inode and one entry of the root directory. -/
lemma Packed.addFile {F : Nat → Node} (h : Packed img F) (hroot : ROOTINO < img.freeinode)
    (hi : img.freeinode < INODEROOM) (hr : addFile img f = some img')
    (hmax : img'.freeblock < 2 ^ 32) :
    Packed img' (addNode F img.freeinode f) ∧ img'.freeinode = img.freeinode + 1 ∧
      (Filled img F → Filled img' (addNode F img.freeinode f)) := by
  have hmono := (advances_addFile hr).1
  obtain ⟨-, img1, ha, hr⟩ := addFile_some hr
  obtain ⟨h₁, hi1, hf1⟩ := h.ialloc T_FILE hi (by decide) (hmono.trans_lt hmax)
  have hne : ROOTINO ≠ img.freeinode := Nat.ne_of_lt hroot
  obtain ⟨h₂, hi2, hf2⟩ := h₁.iappend (by decide) (by omega) ha
    ((advances_copyFile hr).1.trans_lt hmax)
  obtain ⟨h3, hi3, hf3⟩ := h₂.copyFile (i := img.freeinode) h.pos (by omega) le_rfl hr hmax
  rw [upd_ne hne, upd_ne hne.symm, upd_same, nil_append] at h3 hf3
  rw [upd_ne hne] at hf2
  have hF : upd (upd (upd F img.freeinode ⟨T_FILE, 0, 0, 1, []⟩) ROOTINO
      { F ROOTINO with data := (F ROOTINO).data ++ mkDirent (Mkfs.ialloc img T_FILE).1 f.imgName })
      img.freeinode ⟨T_FILE, 0, 0, 1, f.data⟩ = addNode F img.freeinode f := by
    rw [addNode]
    funext j
    by_cases hj : j = img.freeinode
    · rw [hj, upd_same, upd_same]
    · rw [upd_ne hj, upd_ne hj]
      by_cases hjr : j = ROOTINO
      · rw [hjr, upd_same, upd_same]
        rfl
      · rw [upd_ne hjr, upd_ne hjr, upd_ne hj]
  exact ⟨hF ▸ h3, hi3.trans (hi2.trans hi1), fun hf => hF ▸ hf3 (hf2 (hf1 hf))⟩

lemma Packed.addFiles {fs : List HostFile} : ∀ {img : Image} {F : Nat → Node}, Packed img F →
    ROOTINO < img.freeinode → img.freeinode + fs.length ≤ INODEROOM →
    addFiles img fs = some img' → img'.freeblock < 2 ^ 32 →
    Packed img' (addNodes F img.freeinode fs) ∧
      img'.freeinode = img.freeinode + fs.length ∧
      (Filled img F → Filled img' (addNodes F img.freeinode fs)) := by
  induction fs with
  | nil =>
    intro img F h _ _ hr _
    obtain rfl := Option.some.inj hr
    exact ⟨h, rfl, id⟩
  | cons f fs ih =>
    intro img F h hroot hlen hr hmax
    rw [length_cons] at hlen
    obtain ⟨img1, ha, hr⟩ := addFiles_cons hr
    obtain ⟨h₁, hi1, hf1⟩ := h.addFile hroot (by omega) ha ((advances_addFiles hr).1.trans_lt hmax)
    obtain ⟨h₂, hi2, hf2⟩ := ih h₁ (by omega) (by omega) hr hmax
    rw [hi1] at h₂ hi2 hf2
    exact ⟨h₂, by rw [hi2, length_cons]; omega, fun hf => hf2 (hf1 hf)⟩

end Files

/-! ### The root directory -/

lemma le_zeroes (o n : Nat) : zeroes.le o n = 0 := le_eq_zero fun _ _ _ => rfl

lemma blank_sect {b : Nat} (hb : b ≠ 1) : blank.sect b = zeroes := by
  simp only [blank, upd_ne hb]

lemma packed_blank : Packed blank fun _ => {} := by
  refine ⟨⟨rfl, by decide, rfl, fun b hb => blank_sect ?_, fun b hb => blank_sect ?_⟩, by decide,
    by decide, fun i _ _ => ?_, ⟨fun x hx => absurd ?_ hx, fun x y hx _ => absurd ?_ hx⟩,
    fun i h1 h2 => absurd h2 (by simp only [blank]; omega), fun _ _ => rfl⟩
  · rintro rfl
    exact absurd hb.1 (by decide)
  · rintro rfl
    exact absurd hb (by decide)
  · unfold dinode getDinode
    rw [blank_sect (by rw [IBLOCK_eq]; omega), le_zeroes]
    rfl
  all_goals
    have h0 : imgAddrs blank x.1 = fun _ => 0 := if_neg (by simp only [blank]; omega)
    unfold ptrs
    rw [h0]
    rcases Nat.lt_or_ge NDIRECT x.2 with hp | hp
    · exact ptr_of_no_indirect hp rfl
    · exact ptr_direct hp

/-- No block has been handed out. -/
lemma filled_blank : Filled blank fun _ => {} := by
  refine ⟨fun b hb => ?_, fun i h1 h2 => ?_⟩
  · exact absurd (hb.1.trans_lt hb.2) (lt_irrefl _)
  · exact absurd h2 (Nat.not_lt.mpr h1)

lemma advances_root {img : Image} (hr : root = some img) : Advances blank img := by
  unfold root at hr
  simp only at hr
  cases ha : Mkfs.iappend (Mkfs.ialloc blank T_DIR).2 (Mkfs.ialloc blank T_DIR).1
      (mkDirent (Mkfs.ialloc blank T_DIR).1 dot) with
  | none =>
    rw [ha] at hr
    exact absurd hr (by simp)
  | some img1 =>
    rw [ha] at hr
    have hadv := advances_iappend ha
    exact Advances.trans hadv (advances_iappend hr)

/-- The root directory has its entries "." and "..". -/
lemma packed_root {img : Image} (hr : root = some img) (hmax : img.freeblock < 2 ^ 32) :
    Packed img rootNodes ∧ img.freeinode = 2 ∧ Filled img rootNodes := by
  unfold root at hr
  simp only at hr
  have hfree : blank.freeinode = ROOTINO := rfl
  obtain ⟨h₁, hi1, hf1⟩ := packed_blank.ialloc T_DIR (by decide) (by decide) (by decide)
  have hino : (Mkfs.ialloc blank T_DIR).1 = ROOTINO := rfl
  rw [hino] at hr
  cases ha : Mkfs.iappend (Mkfs.ialloc blank T_DIR).2 ROOTINO (mkDirent ROOTINO dot) with
  | none =>
    rw [ha] at hr
    exact absurd hr (by simp)
  | some img1 =>
    rw [ha] at hr
    rw [hfree] at h₁ hi1
    obtain ⟨h₂, hi2, hf2⟩ := h₁.iappend (by decide) (by rw [hi1]; decide) ha
      ((advances_iappend hr).1.trans_lt hmax)
    obtain ⟨h3, hi3, hf3⟩ := h₂.iappend (by decide) (by rw [hi2, hi1]; decide) hr hmax
    have hf3 := hf3 (hf2 (hf1 filled_blank))
    rw [upd_upd, upd_upd, upd_same, upd_same] at h3 hf3
    exact ⟨h3, hi3.trans (hi2.trans hi1), hf3⟩

/-! ### The finished image -/

/-- The nodes of the finished image: the root directory fills its last block. -/
def nodes (files : List HostFile) : Nat → Node :=
  let N := addNodes rootNodes 2 files
  let n := (N ROOTINO).data.length
  upd N ROOTINO { N ROOTINO with
    data := (N ROOTINO).data ++ List.replicate ((n / BSIZE + 1) * BSIZE - n) 0 }

lemma bitSet_range (n j : Nat) :
    bitSet ((List.range n).foldl setBit zeroes) j = decide (j < n) := by
  induction n with
  | zero => simp [bitSet, zeroes]
  | succ n ih =>
    rw [range_succ, foldl_append, foldl_cons, foldl_nil, bitSet_setBit, ih,
      ← Bool.decide_or]
    exact decide_eq_decide.mpr (by omega)

/-- The bitmap of the finished image marks the blocks handed out. -/
lemma used_bitmap {img : Image} (h : Fresh img) (hmax : img.freeblock < 4096) {b : Nat}
    (hb : b < FSSIZE) :
    used (upd img.sect BITSTART ((List.range img.freeblock).foldl setBit zeroes)) b =
      decide (b < img.freeblock) := by
  unfold used
  have hblk := isBitmap_BBLOCK hb
  by_cases h0 : b < 4096
  · have h1 : BBLOCK b NINODES = BITSTART := by rw [BBLOCK_eq]; omega
    have h2 : b % BPB = b := Nat.mod_eq_of_lt h0
    rw [h1, upd_same, bitSet_range, h2]
  · have h1 : BBLOCK b NINODES ≠ BITSTART := by rw [BBLOCK_eq]; omega
    rw [upd_ne h1, h.bitmap _ hblk]
    have h2 : ¬ b < img.freeblock := by omega
    simp [h2, bitSet, zeroes]

/-- The image before its bitmap is written, and the image itself. -/
lemma main_eq {files : List HostFile} {img : Image} (h : main files = some img) :
    ∃ r a, root = some r ∧ addFiles r files = some a ∧ a.usedblocks < 4096 ∧
      img = wsect (winode a ROOTINO { rinode a ROOTINO with
        size := ((rinode a ROOTINO).size / BSIZE + 1) * BSIZE }) BITSTART
        ((List.range a.usedblocks).foldl setBit zeroes) := by
  unfold main at h
  cases hr : root with
  | none => simp [hr] at h
  | some r =>
    rw [hr] at h
    cases ha : addFiles r files with
    | none => simp [ha] at h
    | some a =>
      simp only [ha] at h
      unfold balloc at h
      split_ifs at h with hu
      exact ⟨r, a, rfl, ha, hu, (Option.some.inj h).symm⟩

section Main

variable {files : List HostFile} {img : Image}

/-- With room for all inodes, the image before the last two writes is built as it should be. -/
lemma packed_files {r a : Image} (hr : root = some r) (ha : addFiles r files = some a)
    (hu : a.usedblocks < 4096) (hlen : files.length + 2 ≤ INODEROOM) :
    Packed a (addNodes rootNodes 2 files) ∧ a.freeinode = files.length + 2 ∧
      a.usedblocks = a.freeblock ∧ a.freeblock < 4096 ∧
      Filled a (addNodes rootNodes 2 files) := by
  have hadv := advances_addFiles ha
  have hmax : a.freeblock < 4096 := by
    have h1 := ((advances_root hr).trans hadv).2
    have h2 : blank.freeblock = blank.usedblocks := rfl
    omega
  have hroot : r.freeblock < 2 ^ 32 := (hadv.1.trans_lt hmax).trans (by decide)
  obtain ⟨h₁, hi1, hf1⟩ := packed_root hr hroot
  obtain ⟨h₂, hi2, hf2⟩ := h₁.addFiles (by rw [hi1]; decide) (by omega) ha
    (hmax.trans (by decide))
  rw [hi1] at h₂ hi2 hf2
  exact ⟨h₂, by omega, h₂.fresh.counters, hmax, hf2 hf1⟩

lemma getSuperblock_blank : getSuperblock (blank.sect 1) = ⟨size, nblocks, ninodes, nlog⟩ := by
  decide

/-- The state after boot on the image has the layout of `mkfs`, and the blocks before the data area
are marked. -/
lemma Fresh.volume {a : Image} (h : Fresh a) (hmax : a.freeblock < 4096) {sect : Nat → Bytes}
    (hs : sect = upd a.sect BITSTART ((List.range a.freeblock).foldl setBit zeroes)) :
    Volume (boot sect) := by
  have hone : getSuperblock (sect 1) = ⟨size, nblocks, ninodes, nlog⟩ := by
    rw [hs, upd_ne (by decide), h.super]
    exact getSuperblock_blank
  refine ⟨⟨?_, ?_, ?_, ?_, ?_, ?_, ?_, ?_, ?_⟩, fun b hb => ?_⟩
  · change (getSuperblock (sect 1)).size = _
    rw [hone]
    rfl
  · change (getSuperblock (sect 1)).size - (getSuperblock (sect 1)).nlog = _
    rw [hone]
    rfl
  · change (getSuperblock (sect 1)).nlog = _
    rw [hone]
    rfl
  · change (getSuperblock (sect 1)).size = _
    rw [hone]
    rfl
  · change (getSuperblock (sect 1)).ninodes = _
    rw [hone]
    rfl
  · exact fun b hb => absurd hb (not_mem_nil)
  · exact nodup_nil
  · exact Nat.zero_le _
  · exact fun j b hj => absurd hj (by simp [boot])
  · change used sect b = true
    rw [hs, used_bitmap h hmax (hb.trans (by decide))]
    exact decide_eq_true (hb.trans_le h.lo)

/-- Boot on a built image is consistent. -/
lemma Built.fsOk {a : Image} (h : Built a) (hmax : a.freeblock < 4096) {sect : Nat → Bytes}
    (hs : sect = upd a.sect BITSTART ((List.range a.freeblock).foldl setBit zeroes)) :
    FsOk (boot sect) ∧ node sect = node a.sect := by
  -- the bitmap block holds no inode and no data
  have hdata : ∀ c, DATASTART ≤ c → sect c = a.sect c := fun c hc => by
    rw [hs]
    refine upd_ne ?_
    simp only [BITSTART, DATASTART] at *
    omega
  have hdin : ∀ j < NINODES, dinode sect j = dinode a.sect j := fun j hj => by
    refine dinode_congr ?_
    rw [hs]
    exact upd_ne (Nat.ne_of_lt (IBLOCK_lt hj))
  have hlive : ∀ j, live sect j = live a.sect j := fun j => by
    by_cases hj : j < NINODES
    · exact live_congr (hdin j hj)
    · simp [live, hj]
  have hA : ∀ j, diskAddrs sect j = diskAddrs a.sect j := fun j => by
    unfold diskAddrs
    rw [hlive]
    split_ifs with hl
    · rw [hdin j (live_iff.mp hl).2.1]
    · rfl
  have hptr : ∀ j q, ptr sect (diskAddrs a.sect j) q = ptr a.sect (diskAddrs a.sect j) q :=
    fun j q => by
    refine ptr_congr (fun _ _ => rfl) fun h0 => hdata _ ?_
    have := h.ptrs.valid (j, NDIRECT) (by rwa [Xv6.ptrs, ptr_direct le_rfl])
    rw [Xv6.ptrs, ptr_direct le_rfl] at this
    exact this.1
  have hboot : ∀ k, 0 < ((boot sect).inode k).ref → k = 0 := fun k hk => by
    by_contra hne
    rw [boot_inode_ne hne] at hk
    exact absurd hk (by decide)
  refine ⟨⟨h.fresh.volume hmax hs, ?_, fun i hi => ?_, fun i hi o ho => ?_, fun k _ hk => ?_,
    fun k _ hk => ?_, fun k i hc => ?_, fun k k' _ _ hk hk' _ => ?_⟩, ?_⟩
  · refine (h.ptrs.congr ?_).mono fun b hb => ⟨hb.1, ?_, ?_⟩
    · rintro ⟨j, q⟩
      change ptr sect (diskAddrs sect j) q = ptr a.sect (diskAddrs a.sect j) q
      rw [hA, hptr]
    · exact (hb.2.trans hmax).trans (by decide)
    · change used sect b = true
      rw [hs, used_bitmap h.fresh hmax ((hb.2.trans hmax).trans (by decide))]
      exact decide_eq_true hb.2
  · change live sect i = true at hi
    change (dinode sect i).size ≤ _
    rw [hdin i (live_iff.mp hi).2.1]
    exact h.size i (hlive i ▸ hi)
  · change live sect i = true at hi
    change o < (dinode sect i).size at ho
    change ptr sect (dinode sect i).addrs _ ≠ 0
    have hl := hlive i ▸ hi
    rw [hdin i (live_iff.mp hi).2.1] at ho ⊢
    have := h.mapped i hl o ho
    unfold HasBlock at this
    rw [← diskAddrs_of_live hl] at this ⊢
    rwa [hptr]
  · rw [hboot k hk]
    rfl
  · rw [hboot k hk]
    exact ⟨le_rfl, (by decide : ROOTINO < NINODES)⟩
  · have h0 := hboot k hc.ref
    have hv := hc.valid
    rw [h0] at hv
    exact Bool.noConfusion (show false = true from hv)
  · rw [hboot k hk, hboot k' hk']
  · funext j
    cases hl : live a.sect j with
    | false => rw [node_of_free hl, node_of_free ((hlive j).trans hl)]
    | true =>
      refine node_congr (hdin j (live_iff.mp hl).2.1) fun _ o ho => ?_
      have hb := h.mapped j hl o ho
      unfold HasBlock at hb
      rw [← diskAddrs_of_live hl] at hb ⊢
      exact byteAt_congr (hptr j _) (hdata _ (h.ptrs.valid (j, _) hb).1)

/-- Filling the last block of the root directory. -/
lemma Packed.draft_root {a : Image} {F : Nat → Node} (h : Packed a F) (hlt : ROOTINO < a.freeinode)
    {n : Nat} (hn : n = (F ROOTINO).data.length) (hmod : n % BSIZE ≠ 0) :
    Draft (imgAddrs a) ROOTINO a a (rinode a ROOTINO) ((F ROOTINO).data ++
      List.replicate ((n / BSIZE + 1) * BSIZE - n) 0) := by
  have hd := (h.draft (by decide) hlt).1
  have hblock : ∀ o, n ≤ o → o < (n / BSIZE + 1) * BSIZE →
      HasBlock a.sect (rinode a ROOTINO).addrs o := fun o h1 h2 => by
    have hb := (hd.bytes (n - 1) (by simp only [BSIZE] at *; omega)).1
    unfold HasBlock at hb ⊢
    rwa [show o / BSIZE = (n - 1) / BSIZE by simp only [BSIZE] at *; omega]
  have hlen : ((F ROOTINO).data ++
      List.replicate ((n / BSIZE + 1) * BSIZE - n) (0 : Byte)).length =
        (n / BSIZE + 1) * BSIZE := by
    rw [length_append, length_replicate, ← hn]
    simp only [BSIZE]
    omega
  refine ⟨⟨?_, fun o ho => ?_, fun o ho hb => hd.tail o ?_ hb⟩, hd.fresh, hd.ptrs, hd.freeinode,
    hd.reserved, hd.others⟩
  · rw [hlen]
    have := hd.length
    rw [← hn] at this
    simp only [SMALLFILE, NDIRECT, NINDIRECT, BSIZE] at *
    omega
  · rw [hlen] at ho
    rcases Nat.lt_or_ge o n with hlt | hge
    · rw [getD_append _ _ _ _ (hn ▸ hlt)]
      exact hd.bytes o (hn ▸ hlt)
    · have hb := hblock o hge ho
      refine ⟨hb, (hd.tail o (hn ▸ hge) hb).trans ?_⟩
      rw [getD_append_right _ _ _ _ (hn ▸ hge), getD_eq_getElem?_getD]
      simp only [getElem?_replicate]
      split_ifs <;> rfl
  · rw [hlen] at ho
    rw [← hn]
    simp only [BSIZE] at *
    omega

lemma length_mkDirent (inum : Nat) (name : List Byte) : (mkDirent inum name).length = 16 := by
  have hcpy : ∀ n i, (strncpy (cstr name) i n).length = n := by
    intro n
    induction n with
    | zero => intro i; rfl
    | succ n ih =>
      intro i
      unfold strncpy
      split_ifs
      · exact length_replicate
      · rw [length_cons, ih]
  rw [mkDirent, length_append, hcpy]
  rfl

/-- The root directory has one entry for each host file, after its first two. -/
lemma length_root : ∀ (fs : List HostFile) (N : Nat → Node) (n : Nat), ROOTINO < n →
    (addNodes N n fs ROOTINO).data.length = (N ROOTINO).data.length + 16 * fs.length := by
  intro fs
  induction fs with
  | nil => intro N n _; rfl
  | cons f fs ih =>
    intro N n hn
    rw [addNodes, ih _ _ (by omega), addNode, upd_ne (Nat.ne_of_lt hn), upd_same,
      length_append, length_mkDirent, length_cons]
    omega

theorem volume_boot (h : main files = some img) (hlen : files.length + 2 ≤ INODEROOM) :
    Volume (boot img.sect) := by
  obtain ⟨r, a, hr, ha, hu, rfl⟩ := main_eq h
  obtain ⟨hp, -, hcount, hmax, -⟩ := packed_files hr ha hu hlen
  rw [hcount]
  exact (hp.fresh.winode (by decide)).volume hmax rfl

/-- After boot on the image of `mkfs` disk and cache are consistent, unless the root directory ends
at the end of a block: its size is then one block more than it has. -/
theorem fsOk_boot (h : main files = some img) (hlen : files.length + 2 ≤ NINODES)
    (hmod : (files.length + 2) % 32 ≠ 0) :
    FsOk (boot img.sect) ∧ node img.sect = nodes files := by
  obtain ⟨r, a, hr, ha, hu, rfl⟩ := main_eq h
  obtain ⟨hp, hfree, hcount, hmax, -⟩ := packed_files hr ha hu (hlen.trans (by decide))
  have hroot : ROOTINO < a.freeinode := by
    rw [hfree]
    simp only [ROOTINO]
    omega
  obtain ⟨F, hF⟩ : ∃ F, F = addNodes rootNodes 2 files := ⟨_, rfl⟩
  rw [← hF] at hp
  obtain ⟨n, hn⟩ : ∃ n, n = (F ROOTINO).data.length := ⟨_, rfl⟩
  have hn' : n = 32 + 16 * files.length := by
    rw [hn, hF, length_root _ _ _ (by decide), rootNodes, upd_same, length_append,
      length_mkDirent, length_mkDirent]
  have hs := hp.file ROOTINO (by decide) hroot
  have hd := hp.draft_root hroot hn (by simp only [BSIZE]; omega)
  obtain ⟨D, hD⟩ : ∃ D, D = (F ROOTINO).data ++
    List.replicate ((n / BSIZE + 1) * BSIZE - n) (0 : Byte) := ⟨_, rfl⟩
  have hlen' : D.length = (n / BSIZE + 1) * BSIZE := by
    rw [hD, length_append, length_replicate, ← hn]
    simp only [BSIZE]
    omega
  have hnode : (⟨(rinode a ROOTINO).type, (rinode a ROOTINO).major, (rinode a ROOTINO).minor,
      (rinode a ROOTINO).nlink, D⟩ : Node) = { F ROOTINO with data := D } := by
    rw [show (rinode a ROOTINO).type = _ from hs.type,
      show (rinode a ROOTINO).major = _ from hs.major,
      show (rinode a ROOTINO).minor = _ from hs.minor,
      show (rinode a ROOTINO).nlink = _ from hs.nlink]
  rw [← hD] at hd
  have hp' := (hd.packed rfl hp.but (by decide) hroot (hs.type ▸ hs.used)
    (hmax.trans (by decide))).1
  rw [hnode, hlen'] at hp'
  obtain ⟨hb, hnodes⟩ := hp'.built (hfree.trans_le hlen)
  have hsize : (rinode a ROOTINO).size = n := hs.size.trans hn.symm
  rw [hsize, hcount]
  obtain ⟨hok, hnode'⟩ := hb.fsOk hmax rfl
  refine ⟨hok, hnode'.trans (hnodes.trans ?_)⟩
  unfold nodes
  simp only
  rw [← hF, ← hn, hD]

end Main

end Xv6.Mkfs
