import Xv6.Fs.Files

/-!
# `readi` and `writei` on files

On a consistent disk `readi` returns bytes of the file and changes nothing, and `writei` changes the
bytes of its file and nothing else.
-/

namespace Xv6

open Lib Prog List

/-- The bytes `src` written over `data` at offset `off`. -/
def writeBytes (data : List Byte) (off : Nat) (src : List Byte) : List Byte :=
  data.take off ++ src ++ data.drop (off + src.length)

section WriteBytes

variable {data src : List Byte} {off : Nat}

lemma length_writeBytes (h : off ≤ data.length) :
    (writeBytes data off src).length = max data.length (off + src.length) := by
  simp only [writeBytes, length_append, length_take, length_drop]
  omega

lemma getElem_writeBytes (h : off ≤ data.length) {o : Nat}
    (ho : o < (writeBytes data off src).length) :
    (writeBytes data off src)[o] = if o < off ∨ off + src.length ≤ o then data.getD o 0
      else src.getD (o - off) 0 := by
  have hlen : (writeBytes data off src).length = _ := length_writeBytes h
  have htake : (data.take off).length = off := by rw [length_take]; omega
  rw [← getD_eq_getElem (d := 0)]
  unfold writeBytes
  rcases Nat.lt_or_ge o (off + src.length) with h1 | h1
  · rw [getD_append _ _ _ _ (by rw [length_append, htake]; exact h1)]
    rcases Nat.lt_or_ge o off with h2 | h2
    · rw [if_pos (.inl h2), getD_append _ _ _ _ (by rw [htake]; exact h2)]
      rw [getD_eq_getElem?_getD, getD_eq_getElem?_getD, getElem?_take_of_lt h2]
    · rw [if_neg (by omega), getD_append_right _ _ _ _ (by rw [htake]; exact h2), htake]
  · rw [if_pos (.inr h1), getD_append_right _ _ _ _ (by
      rw [length_append, htake]; exact h1), length_append, htake,
      getD_eq_getElem?_getD, getD_eq_getElem?_getD, getElem?_drop,
      Nat.add_sub_cancel' h1]

/-- The bytes below a write stay. -/
lemma take_drop_writeBytes_below (h : off ≤ data.length) {o n : Nat} (ho : o + n ≤ off) :
    ((writeBytes data off src).drop o).take n = (data.drop o).take n := by
  have hlen : (data.take off).length = off := by rw [length_take, Nat.min_eq_left h]
  rw [writeBytes, append_assoc, drop_append_of_le_length (by omega),
    take_append_of_le_length (by rw [length_drop]; omega), drop_take,
    take_take, Nat.min_eq_left (by omega)]

/-- The range of a write has the bytes written. -/
lemma take_drop_writeBytes_self (h : off ≤ data.length) :
    ((writeBytes data off src).drop off).take src.length = src := by
  have hlen : (data.take off).length = off := by rw [length_take, Nat.min_eq_left h]
  rw [writeBytes, append_assoc, drop_append_of_le_length hlen.ge]
  simp

/-- The bytes above a write stay. -/
lemma drop_writeBytes_above (h : off ≤ data.length) {o : Nat} (ho : off + src.length ≤ o) :
    (writeBytes data off src).drop o = data.drop o := by
  have hlen : (data.take off ++ src).length = off + src.length := by
    rw [length_append, length_take, Nat.min_eq_left h]
  obtain ⟨d, rfl⟩ : ∃ d, o = off + src.length + d := ⟨o - (off + src.length), by omega⟩
  rw [writeBytes, ← drop_drop, ← hlen, drop_left, drop_drop, hlen]

end WriteBytes

/-! ### What the loop of `writei` leaves -/

section Wrote

variable {s s' : State} {i j k off : Nat} {w : List Byte}

/-- The inode blocks are not touched by the loop. -/
lemma Wrote.dinode_eq {A : Nat → Nat → Nat} (hw : Wrote A i k s off w s') (h : Tree A i k s)
    (hj : j < NINODES) : dinode s'.sector j = dinode s.sector j := by
  have hb := IBLOCK_lt hj
  have hres : IBLOCK j < DATASTART := hb.trans (by decide)
  refine dinode_congr (hw.sector _ (hb.trans (by decide)) (h.volume.reserved _ hres)
    (fun hnb => absurd hnb.1 (Nat.not_le.mpr hb)) fun q e => ?_)
  have h0 : ptr s.sector (s.inode k).addrs q ≠ 0 := by rw [e, IBLOCK_eq]; omega
  exact absurd (h.own h0).1 (by rw [e]; exact Nat.not_le.mpr hres)

lemma Wrote.live_eq {A : Nat → Nat → Nat} (hw : Wrote A i k s off w s') (h : Tree A i k s) :
    live s'.sector j = live s.sector j := by
  by_cases hj : j < NINODES
  · exact live_congr (hw.dinode_eq h hj)
  · simp [live, hj]

lemma Wrote.diskAddrs_eq {A : Nat → Nat → Nat} (hw : Wrote A i k s off w s') (h : Tree A i k s) :
    diskAddrs s'.sector = diskAddrs s.sector := by
  funext j
  unfold diskAddrs
  rw [hw.live_eq h]
  split_ifs with hl
  · rw [hw.dinode_eq h (live_iff.mp hl).2.1]
  · rfl

/-- The files of the other inodes are not touched by the loop. -/
lemma Wrote.sector_other {A : Nat → Nat → Nat} (hw : Wrote A i k s off w s') (h : Tree A i k s)
    (hj : j ≠ i) {q : Nat} (hq : ptr s.sector (A j) q ≠ 0) :
    s'.sector (ptr s.sector (A j) q) = s.sector (ptr s.sector (A j) q) := by
  have hd := h.other hj hq
  exact hw.sector _ hd.2.1 hd.2.2 hd.not_bitmap fun p => (h.other_ne hj hq).symm

lemma Wrote.ptr_other {A : Nat → Nat → Nat} (hw : Wrote A i k s off w s') (h : Tree A i k s)
    (hj : j ≠ i) (q : Nat) : ptr s'.sector (A j) q = ptr s.sector (A j) q := by
  refine ptr_congr (fun _ _ => rfl) fun hi => ?_
  have := hw.sector_other (q := NDIRECT) h hj (by rwa [ptr_direct le_rfl])
  rwa [ptr_direct le_rfl] at this

/-- After the loop the changes of the cached inode are pending. -/
lemma Wrote.pending (hw : Wrote (diskAddrs s.sector) i k s off w s') (h : FsOk s)
    (hc : Caches s k i) : Pending s' k i := by
  have ht := h.tree hc
  have hp := h.pending hc
  have hslot : ∀ k', k' ≠ k → s'.inode k' = s.inode k' := fun k' hk' => by
    rw [hw.inode]
    exact upd_ne hk'
  have hk := hw.slot
  have hrefs : ∀ k', (s'.inode k').ref = (s.inode k').ref := fun k' => by
    by_cases hk' : k' = k
    · rw [hk', hk]
    · rw [hslot k' hk']
  have hinums : ∀ k', (s'.inode k').inum = (s.inode k').inum := fun k' => by
    by_cases hk' : k' = k
    · rw [hk', hk]
    · rw [hslot k' hk']
  refine ⟨?_, ⟨hc.lt, ?_, ?_, ?_⟩, hp.pos, hp.lt, ?_, ?_, ?_, fun j hj hl => ?_,
    fun j hj hl o ho => ?_,
    fun k' hk' hr => ?_, fun k' hk' hr => ?_, fun k' j hk' hc' => ?_,
      fun k1 k2 h1 h2 hr1 hr2 he => ?_⟩
  · rw [hw.diskAddrs_eq ht]
    exact hw.tree
  · rw [hrefs]
    exact hc.ref
  · rw [hinums]
    exact hc.inum
  · rw [hk]
    exact hc.valid
  · rw [hk]
    exact hp.type
  · rw [hk]
    exact hp.size
  · intro o ho
    rw [hk] at ho
    exact hw.hasBlock (hp.mapped o ho)
  · rw [hw.live_eq ht] at hl
    rw [hw.dinode_eq ht (live_iff.mp hl).2.1]
    exact h.size j hl
  · rw [hw.live_eq ht] at hl
    rw [hw.dinode_eq ht (live_iff.mp hl).2.1] at ho ⊢
    have := h.mapped j hl o ho
    unfold HasBlock at this ⊢
    rw [← diskAddrs_of_live hl] at this ⊢
    rwa [hw.ptr_other ht hj]
  · have hr' : 0 < (s.inode k').ref := hrefs k' ▸ hr
    by_cases hkk : k' = k
    · rw [hkk, hk]
      exact h.dev k hc.lt hc.ref
    · rw [hslot k' hkk]
      exact h.dev k' hk' hr'
  · rw [hinums]
    exact h.inum k' hk' (hrefs k' ▸ hr)
  · have hc0 : Caches s k' j :=
      ⟨hc'.lt, hrefs k' ▸ hc'.ref, hinums k' ▸ hc'.inum, hslot k' hk' ▸ hc'.valid⟩
    obtain ⟨hl, hd⟩ := h.synced k' j hc0
    rw [hw.live_eq ht, hw.dinode_eq ht (live_iff.mp hl).2.1, hslot k' hk']
    exact ⟨hl, hd⟩
  · rw [hrefs] at hr1 hr2
    rw [hinums, hinums] at he
    exact h.uniq k1 k2 h1 h2 hr1 hr2 he

lemma Wrote.node_other (hw : Wrote (diskAddrs s.sector) i k s off w s') (h : FsOk s)
    (hc : Caches s k i) (hj : j ≠ i) : node s'.sector j = node s.sector j := by
  have ht := h.tree hc
  cases hl : live s.sector j with
  | false => rw [node_of_free hl, node_of_free ((hw.live_eq ht).trans hl)]
  | true =>
    refine node_congr (hw.dinode_eq ht (live_iff.mp hl).2.1) fun _ o ho => ?_
    have hb := h.mapped j hl o ho
    unfold HasBlock at hb
    rw [← diskAddrs_of_live hl] at hb ⊢
    exact byteAt_congr (hw.ptr_other ht hj _) (hw.sector_other ht hj hb)

/-- The bytes of the written file. -/
lemma Wrote.data_eq (hw : Wrote (diskAddrs s.sector) i k s off w s') (h : FsOk s)
    (hc : Caches s k i) (hoff : off ≤ (s.inode k).size) :
    (List.range (max (s.inode k).size (off + w.length))).map
        (byteAt s'.sector (s'.inode k).addrs) =
      writeBytes (node s.sector i).data off w := by
  have hl := (h.synced k i hc).1
  have hdata : (node s.sector i).data = fileData s.sector (dinode s.sector i) := by
    rw [node_of_live hl]
  have hsize := h.size_eq hc
  have hlen : off ≤ (fileData s.sector (dinode s.sector i)).length := by
    rw [length_fileData, ← hsize]
    exact hoff
  rw [hdata]
  refine ext_getElem ?_ fun o h1 h2 => ?_
  · rw [length_writeBytes hlen, length_fileData, length_map, length_range, hsize]
  · rw [getElem_writeBytes hlen, getElem_map, getElem_range]
    rw [length_map, length_range] at h1
    split_ifs with hout
    · have ho : o < (s.inode k).size := by omega
      rw [hw.outside o (h.hasBlock hc ho) hout, h.byteAt_eq hc, getD_eq_getElem _ _ (by
        rw [length_fileData, ← hsize]; exact ho)]
      simp [fileData]
    · have := hw.inside (o - off) (by omega)
      rwa [show off + (o - off) = o by omega] at this

end Wrote

/-! ### `writei` -/

/-- `s'` is `s` after `writei` has written `src` at offset `off` of inode `i` in slot `k`. -/
structure WroteFile (s : State) (k i off : Nat) (src : List Byte) (s' : State) : Prop where
  ok : FsOk s'
  node_eq : node s'.sector = upd (node s.sector) i
    { node s.sector i with data := writeBytes (node s.sector i).data off src }
  other : ∀ j ≠ i, ∀ p, ptr s'.sector (diskAddrs s'.sector j) p =
    ptr s.sector (diskAddrs s.sector j) p
  inode : s'.inode = upd s.inode k
    { s.inode k with
      size := max (s.inode k).size (off + src.length)
      addrs := (s'.inode k).addrs }
  file : s'.file = s.file
  proc : s'.proc = s.proc
  input : s'.input = s.input
  busy : s'.log.busy = s.log.busy
  free : (freeBlocks s.sector).card ≤
    (freeBlocks s'.sector).card + nblk off src.length + indMissing s k

section Writei

variable {s : State} {i k off : Nat} {src : List Byte} {Q : Int → State → Prop}
  {E : Option Panic → State → Prop}

lemma int32_of_lt {n : Nat} (h : n < 2 ^ 31) : int32 n = n := by
  unfold int32
  rw [BitVec.toInt_eq_toNat_of_lt] <;> simp <;> omega

/-- The node of a cached inode, in terms of its copy. -/
lemma FsOk.node_eq (h : FsOk s) (hc : Caches s k i) : node s.sector i =
    ⟨(s.inode k).type, (s.inode k).major, (s.inode k).minor, (s.inode k).nlink,
      (node s.sector i).data⟩ := by
  obtain ⟨hl, hd⟩ := h.synced k i hc
  rw [node_of_live hl, ← hd]
  rfl

/-- `writei` of a range that needs no double indirection writes the bytes and nothing else. Blocks
are needed only where the file grows. -/
lemma wp_writei (h : FsOk s) (hc : Caches s k i) (ht : (s.inode k).type ≠ T_DEV)
    (hoff : off ≤ (s.inode k).size) (hmax : off + src.length ≤ SMALLFILE * BSIZE)
    (hfree : (s.inode k).size < off + src.length →
      nblk off src.length + indMissing s k ≤ (freeBlocks s.sector).card)
    (hE : Room s (indCost s k + 2 * nblk off src.length + 1) ∨ ∀ e s', E e s')
    (hQ : ∀ s', WroteFile s k i off src s' → Q src.length s') : (writei k off src).wp Q E s := by
  have hmax' : off + src.length < 2 ^ 31 := hmax.trans_lt (by decide)
  have hmod : (off + src.length) % 2 ^ 32 = off + src.length := Nat.mod_eq_of_lt (by omega)
  have hsmall : ¬ MAXFILE * BSIZE < off + src.length :=
    Nat.not_lt.mpr (hmax.trans (by decide))
  have hin : off + src.length ≤ (s.inode k).size → ∀ j < src.length,
      HasBlock s.sector (s.inode k).addrs (off + j) := fun hle j hj => h.hasBlock hc (by omega)
  unfold writei
  rw [wp_read, if_neg ht, hmod, if_neg (by omega), if_neg hsmall, int32_of_lt (by omega)]
  refine wp_bind.mpr (wp_writeiLoop src.length le_rfl ⟨h.tree hc, h.dev k hc.lt hc.ref, hmax,
    fun hno => hfree ?_, hE, fun s1 hw hstill hlen hcard => ?_⟩)
  · obtain ⟨j, hj, hno⟩ := hno
    by_contra hle
    exact hno (hin (by omega) j hj)
  have hp := hw.pending h hc
  have hsize : (s1.inode k).size = (s.inode k).size := by rw [hw.slot]
  have hdata := hw.data_eq h hc hoff
  have hother : ∀ j ≠ i, ∀ p, ptr s1.sector (diskAddrs s1.sector j) p =
      ptr s.sector (diskAddrs s.sector j) p := fun j hj p => by
    rw [hw.diskAddrs_eq (h.tree hc)]
    exact hw.ptr_other (h.tree hc) hj p
  rw [wp_read, hsize]
  by_cases hgrow : 0 < src.length ∧ (s.inode k).size < off + src.length
  · -- the file grows: `size` and the new addresses go to the disk
    rw [K.when_pos hgrow, bind_assoc, wp_write]
    obtain ⟨f, hf⟩ : ∃ f : Inode → Inode, f = fun ip => { ip with size := off + src.length } :=
      ⟨_, rfl⟩
    rw [← hf]
    have hfk : f (s1.inode k) = { s1.inode k with size := off + src.length } := by rw [hf]
    have hp2 : Pending (s1.setInode k f) k i := by
      refine hp.setInode f ?_ ?_ ?_ ?_ ?_ ?_ ?_ fun o ho => ?_ <;> rw [hfk] at *
      · exact hp.type
      · exact hmax
      · rcases Nat.lt_or_ge o (s.inode k).size with h1 | h1
        · exact hp.mapped o (hsize ▸ h1)
        · have := hw.mapped (o - off) (by change o < off + src.length at ho; omega)
          rwa [show off + (o - off) = o by omega] at this
    have hcost : s1.log.lh.length ≤
        s.log.lh.length + indCost s k + 2 * nblk off src.length := by omega
    refine wp_bind.mpr (wp_iupdate hp2 (hE.imp_left fun hr => ⟨hw.busy.trans hr.1, ?_⟩)
      fun s' hu _ => hQ s' ?_)
    · have := hr.2
      change s1.log.lh.length + 1 ≤ LOGCAP
      omega
    have hk2 : (s1.setInode k f).inode k = { s1.inode k with size := off + src.length } := by
      rw [State.setInode_inode_same, hfk]
    refine ⟨hu.ok, ?_, fun j hj p => (hu.other j hj p).trans (hother j hj p), ?_,
      hu.disk.file.trans hw.file, hu.disk.proc.trans hw.proc,
      hu.disk.input.trans hw.input, hu.disk.busy.trans hw.busy, ?_⟩
    · rw [hu.node_eq, hk2]
      funext j
      by_cases hj : j = i
      · subst hj
        rw [upd_same, upd_same, h.node_eq hc, ← hdata, hw.slot]
        change Node.mk _ _ _ _ _ = Node.mk _ _ _ _ _
        congr 1
        rw [max_eq_right (by omega)]
        refine map_congr_left fun o _ => ?_
        exact byteAt_congr (ptr_cutAddrs ..) rfl
      · rw [upd_ne hj, upd_ne hj]
        exact hw.node_other h hc hj
    · have haddr : (s'.inode k).addrs = (s1.inode k).addrs := by rw [hu.disk.inode, hk2]
      rw [haddr, hu.disk.inode, max_eq_right (by omega)]
      change upd s1.inode k (f (s1.inode k)) = _
      rw [hfk]
      conv_lhs => rw [hw.inode, upd_upd, upd_same]
    · rw [hu.free_eq]
      change _ ≤ (freeBlocks s1.sector).card + _ + _
      omega
  · -- the file does not grow: its blocks were there
    rw [K.when_neg hgrow, pure_bind, wp_pure]
    have hle : off + src.length ≤ (s.inode k).size := by omega
    have hinode : s1.inode = s.inode := hstill (hin hle)
    refine hQ s1 ⟨hp.ok ?_, ?_, hother, ?_, hw.file, hw.proc, hw.input, hw.busy, by omega⟩
    · rw [hinode, (h.synced k i hc).2, hw.dinode_eq (h.tree hc) hp.lt]
    · funext j
      by_cases hj : j = i
      · subst hj
        obtain ⟨hl, hd⟩ := h.synced k j hc
        have hl1 : live s1.sector j = true := (hw.live_eq (h.tree hc)).trans hl
        have hd1 := hw.dinode_eq (h.tree hc) hp.lt
        rw [upd_same, ← hdata, node_of_live hl1, node_of_live hl, hd1, max_eq_left hle,
          h.size_eq hc]
        congr 1
        refine map_congr_left fun o _ => byteAt_congr ?_ rfl
        rw [hinode, ← hd]
        exact ptr_cutAddrs ..
      · rw [upd_ne hj]
        exact hw.node_other h hc hj
    · rw [hinode, max_eq_left hle]
      exact (upd_eq_self _ _).symm

end Writei

/-! ### `readi` -/

/-- What `readi` returns for a file with the bytes `data`. -/
def arrayRead (data : List Byte) (off n : Nat) : Int × List Byte :=
  match readiLen data.length off n with
  | none => (-1, [])
  | some m => (m, (data.drop off).take m)

section Readi

variable {A : Nat → Nat → Nat} {s : State} {i k p off n bn : Nat}

/-- Without double indirection, the block that `bmap` finds is the one of the block tree. -/
lemma bmapFind_eq_ptr (hbn : bn < SMALLFILE) (hp : ptr s.sector (s.inode k).addrs (posOf bn) ≠ 0)
    (hind : (s.inode k).addrs NDIRECT ≠ 0 → (s.inode k).addrs NDIRECT < s.disksize) :
    bmapFind s k bn = some (ptr s.sector (s.inode k).addrs (posOf bn)) := by
  unfold bmapFind
  generalize NINDIRECT * NINDIRECT = n
  split_ifs with h1 h2
  · rw [ptr_posOf_direct h1] at hp ⊢
    rw [addrsGet_of_lt (by omega)]
    exact nonzero_eq_some.mpr ⟨rfl, hp⟩
  · rw [posOf_indirect h1] at hp ⊢
    have hi : (s.inode k).addrs NDIRECT ≠ 0 := fun h0 => hp (ptr_of_no_indirect (by omega) h0)
    rw [ptr_entry h2 hi] at hp ⊢
    rw [addrsGet_of_lt (by omega), nonzero_eq_some.mpr ⟨rfl, hi⟩, Option.bind_some, entryFind,
      if_pos (hind hi)]
    exact nonzero_eq_some.mpr ⟨rfl, hp⟩
  all_goals
    unfold SMALLFILE at hbn
    omega

/-- Every block of a cached file is found. -/
lemma FsOk.bmapFind (h : FsOk s) (hc : Caches s k i) (hbn : bn * BSIZE < (s.inode k).size) :
    ∃ a, bmapFind s k bn = some a ∧ a < s.disksize ∧
      a = ptr s.sector (dinode s.sector i).addrs (posOf bn) := by
  have ht := h.tree hc
  have hb := h.hasBlock hc hbn
  unfold HasBlock at hb
  rw [Nat.mul_div_cancel _ (by decide)] at hb
  have hsize := (h.pending hc).size
  have hlt : bn < SMALLFILE := by
    simp only [SMALLFILE, NDIRECT, NINDIRECT, BSIZE] at *
    omega
  have hind : (s.inode k).addrs NDIRECT ≠ 0 → (s.inode k).addrs NDIRECT < s.disksize := fun hi =>
    ht.volume.disksize ▸ (ht.indirect hi).lt_size
  exact ⟨_, bmapFind_eq_ptr hlt hb hind, ht.volume.disksize ▸ (ht.own hb).lt_size, h.ptr_eq hc _⟩

lemma FsOk.length_data (h : FsOk s) (hc : Caches s k i) :
    (node s.sector i).data.length = (s.inode k).size := by
  rw [node_of_live (h.synced k i hc).1, length_fileData, h.size_eq hc]

lemma FsOk.fileByte_eq (h : FsOk s) (hc : Caches s k i) {o : Nat} (ho : o < (s.inode k).size) :
    fileByte s k o = (node s.sector i).data.getD o 0 := by
  have hbn : o / BSIZE * BSIZE < (s.inode k).size := by simp only [BSIZE]; omega
  obtain ⟨a, ha, -, hptr⟩ := h.bmapFind hc hbn
  rw [getD_eq_getElem _ _ (h.length_data hc ▸ ho)]
  simp only [node_of_live (h.synced k i hc).1, fileData, getElem_map, getElem_range]
  unfold fileByte byteAt
  rw [ha, ← hptr]
  rfl

/-- The bytes of a file, read one by one. -/
lemma fileBytes_eq_take {data : List Byte} {m : Nat}
    (h : ∀ o < data.length, fileByte s k o = data.getD o 0) (hm : off + m ≤ data.length) :
    fileBytes s k off m = (data.drop off).take m := by
  refine ext_getElem ?_ fun j h1 h2 => ?_
  · rw [length_fileBytes, length_take, length_drop]
    omega
  · rw [length_fileBytes] at h1
    rw [getElem_take, getElem_drop]
    simp only [fileBytes, getElem_map, getElem_range]
    rw [h _ (by omega), getD_eq_getElem _ _ (by omega)]

/-- `readi` of a file with all its blocks in place returns its bytes and changes nothing. -/
lemma run_readi_array {data : List Byte} (hd : (s.inode k).dev = ROOTDEV)
    (ht : (s.inode k).type ≠ T_DEV) (hsize : (s.inode k).size = data.length)
    (hmax : data.length < 2 ^ 31) (hmap : Mapped s k data.length)
    (hbyte : ∀ o < data.length, fileByte s k o = data.getD o 0) (hoff : off < 2 ^ 32)
    (hn : n < 2 ^ 32) : (readi p k off n).run s = .ok (arrayRead data off n) s := by
  unfold arrayRead
  rw [← hsize]
  cases hlen : readiLen (s.inode k).size off n with
  | none =>
    refine run_bind_ok (run_read _) ?_
    rw [if_neg ht, hlen]
    rfl
  | some m =>
    have hm : off + m ≤ data.length := by
      unfold readiLen at hlen
      split_ifs at hlen <;> simp only [Option.some.injEq] at hlen <;> omega
    rw [run_readi hd ht hlen fun bn hbn => hmap bn (hbn.trans_le hm), fileBytes_eq_take hbyte hm,
      int32_of_lt (by omega)]

/-- `readi` of a file returns its bytes and changes nothing. -/
lemma FsOk.run_readi (h : FsOk s) (hc : Caches s k i) (ht : (s.inode k).type ≠ T_DEV)
    (hoff : off < 2 ^ 32) (hn : n < 2 ^ 32) :
    (readi p k off n).run s = .ok (arrayRead (node s.sector i).data off n) s := by
  have hlen := h.length_data hc
  refine run_readi_array (h.dev k hc.lt hc.ref) ht hlen.symm ?_ (fun bn hbn => ?_)
    (fun o ho => h.fileByte_eq hc (hlen ▸ ho)) hoff hn
  · rw [hlen]
    exact (h.pending hc).size.trans_lt (by decide)
  · obtain ⟨a, ha, hlt, -⟩ := h.bmapFind hc (hlen ▸ hbn)
    exact ⟨a, ha, hlt⟩

end Readi

/-! ### `writei` on an array -/

/-- What `writei` returns for a file with the bytes `data`, and the bytes it leaves. -/
def arrayWrite (data : List Byte) (off : Nat) (src : List Byte) : Int × List Byte :=
  if data.length < off ∨ (off + src.length) % 2 ^ 32 < off then (-1, data)
  else if MAXFILE * BSIZE < (off + src.length) % 2 ^ 32 then (-1, data)
  else (int32 src.length, writeBytes data off src)

lemma arrayWrite_of_le {data src : List Byte} {off : Nat} (hoff : off ≤ data.length)
    (hmax : off + src.length ≤ MAXFILE * BSIZE) :
    arrayWrite data off src = ((src.length : Int), writeBytes data off src) := by
  have hlt : off + src.length < 2 ^ 31 := hmax.trans_lt (by decide)
  have hmod : (off + src.length) % 2 ^ 32 = off + src.length := Nat.mod_eq_of_lt (by omega)
  unfold arrayWrite
  rw [hmod, if_neg (by omega), if_neg (by omega), int32_of_lt (by omega)]

/-- On a consistent file system `writei` is the array operation. -/
lemma wp_writei_array {s : State} {i k off : Nat} {src : List Byte}
    {E : Option Panic → State → Prop}
    (h : FsOk s) (hc : Caches s k i) (ht : (s.inode k).type ≠ T_DEV)
    (hoff : off ≤ (s.inode k).size) (hmax : off + src.length ≤ SMALLFILE * BSIZE)
    (hfree : (s.inode k).size < off + src.length →
      nblk off src.length + indMissing s k ≤ (freeBlocks s.sector).card)
    (hE : Room s (indCost s k + 2 * nblk off src.length + 1) ∨ ∀ e s', E e s') :
    (writei k off src).wp (fun r s' => FsOk s' ∧
      (r, (node s'.sector i).data) = arrayWrite (node s.sector i).data off src) E s := by
  refine wp_writei h hc ht hoff hmax hfree hE fun s' hw => ⟨hw.ok, ?_⟩
  rw [arrayWrite_of_le (by rwa [h.length_data hc]) (hmax.trans (by decide)), hw.node_eq,
    upd_same]

end Xv6
