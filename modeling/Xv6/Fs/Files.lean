import Xv6.Fs.DiskInode

/-!
# The files of the disk

`node sect i` is what inode `i` is for: a type, device numbers, a link count and a sequence of
bytes. `FsOk s` is the consistency of disk and inode cache that the file system code keeps from one
call to the next: allocated blocks belong to one place of one inode, files have all their blocks,
and a valid entry of the cache agrees with the disk.
-/

namespace Xv6

open Lib Prog

/-- Inode `i` is allocated. -/
def live (sect : Nat → Bytes) (i : Nat) : Bool :=
  decide (1 ≤ i ∧ i < NINODES ∧ (dinode sect i).type ≠ 0)

/-- The addresses of inode `i`, none if it is free. -/
def diskAddrs (sect : Nat → Bytes) (i : Nat) : Nat → Nat :=
  if live sect i then (dinode sect i).addrs else fun _ => 0

/-- The bytes of a file. -/
def fileData (sect : Nat → Bytes) (d : Dinode) : List Byte :=
  (List.range d.size).map (byteAt sect d.addrs)

/-- What an inode stands for. -/
structure Node where
  type : BitVec 16 := 0
  major : BitVec 16 := 0
  minor : BitVec 16 := 0
  nlink : BitVec 16 := 0
  data : List Byte := []
  deriving DecidableEq

/-- What inode `i` of the disk stands for. -/
def node (sect : Nat → Bytes) (i : Nat) : Node :=
  if live sect i then
    let d := dinode sect i
    ⟨d.type, d.major, d.minor, d.nlink, fileData sect d⟩
  else {}

/-- Entry `k` of the inode cache is in use for inode `i` and holds a copy of it. -/
structure Caches (s : State) (k i : Nat) : Prop where
  lt : k < NINODE
  ref : 0 < (s.inode k).ref
  inum : (s.inode k).inum = i
  valid : (s.inode k).valid = true

/-- The disk and the inode cache are consistent. -/
structure FsOk (s : State) : Prop where
  volume : Volume s
  ptrs : Pointers (ptrs s.sector (diskAddrs s.sector)) (Data s.sector)
  size : ∀ i, live s.sector i = true → (dinode s.sector i).size ≤ SMALLFILE * BSIZE
  mapped : ∀ i, live s.sector i = true → ∀ o < (dinode s.sector i).size,
    HasBlock s.sector (dinode s.sector i).addrs o
  dev : ∀ k < NINODE, 0 < (s.inode k).ref → (s.inode k).dev = ROOTDEV
  inum : ∀ k < NINODE, 0 < (s.inode k).ref → 1 ≤ (s.inode k).inum ∧ (s.inode k).inum < NINODES
  synced : ∀ k i, Caches s k i →
    live s.sector i = true ∧ (s.inode k).dinode = dinode s.sector i
  uniq : ∀ k k', k < NINODE → k' < NINODE → 0 < (s.inode k).ref → 0 < (s.inode k').ref →
    (s.inode k).inum = (s.inode k').inum → k = k'

section Live

variable {sect sect' : Nat → Bytes} {s : State} {i j k : Nat}

lemma live_iff : live sect i = true ↔ 1 ≤ i ∧ i < NINODES ∧ (dinode sect i).type ≠ 0 := by
  simp [live]

lemma live_congr (h : dinode sect' i = dinode sect i) : live sect' i = live sect i := by
  unfold live
  rw [h]

lemma diskAddrs_of_live (h : live sect i = true) : diskAddrs sect i = (dinode sect i).addrs :=
  if_pos h

@[simp] lemma length_fileData (sect : Nat → Bytes) (d : Dinode) :
    (fileData sect d).length = d.size := by simp [fileData]

lemma node_of_live (h : live sect i = true) : node sect i =
    ⟨(dinode sect i).type, (dinode sect i).major, (dinode sect i).minor, (dinode sect i).nlink,
      fileData sect (dinode sect i)⟩ := by
  unfold node
  rw [if_pos h]

lemma node_of_free (h : live sect i = false) : node sect i = {} := by
  unfold node
  rw [if_neg (by simp [h])]

/-- A node depends on the disk inode and on the blocks of the file. -/
lemma node_congr (h : dinode sect' i = dinode sect i)
    (hbytes : live sect i = true → ∀ o < (dinode sect i).size,
      byteAt sect' (dinode sect i).addrs o = byteAt sect (dinode sect i).addrs o) :
    node sect' i = node sect i := by
  cases hl : live sect i with
  | false => rw [node_of_free hl, node_of_free ((live_congr h).trans hl)]
  | true =>
    rw [node_of_live hl, node_of_live ((live_congr h).trans hl), h]
    congr 1
    exact List.map_congr_left fun o ho => hbytes hl o (List.mem_range.mp ho)

/-- The addresses of a cached inode are those on the disk. -/
lemma FsOk.addrs (h : FsOk s) (hc : Caches s k i) {p : Nat} (hp : p ≤ NDIRECT) :
    (s.inode k).addrs p = diskAddrs s.sector i p := by
  obtain ⟨hl, hd⟩ := h.synced k i hc
  rw [diskAddrs_of_live hl, ← hd]
  exact (cutAddrs_of_le hp).symm

lemma FsOk.ptr_eq (h : FsOk s) (hc : Caches s k i) (p : Nat) :
    ptr s.sector (s.inode k).addrs p = ptr s.sector (dinode s.sector i).addrs p := by
  obtain ⟨hl, hd⟩ := h.synced k i hc
  rw [← diskAddrs_of_live hl]
  exact ptr_congr (fun p hp => h.addrs hc hp) fun _ => rfl

lemma FsOk.byteAt_eq (h : FsOk s) (hc : Caches s k i) (o : Nat) :
    byteAt s.sector (s.inode k).addrs o = byteAt s.sector (dinode s.sector i).addrs o := by
  unfold byteAt
  rw [h.ptr_eq hc]

lemma FsOk.size_eq (h : FsOk s) (hc : Caches s k i) :
    (s.inode k).size = (dinode s.sector i).size := by
  rw [← (h.synced k i hc).2]
  rfl

/-- The cached inode has all blocks of its file. -/
lemma FsOk.hasBlock (h : FsOk s) (hc : Caches s k i) {o : Nat} (ho : o < (s.inode k).size) :
    HasBlock s.sector (s.inode k).addrs o := by
  have hm := h.mapped i (h.synced k i hc).1 o (h.size_eq hc ▸ ho)
  unfold HasBlock at hm ⊢
  rwa [h.ptr_eq hc]

/-- A consistent disk is a block tree for any cached inode. -/
lemma FsOk.tree (h : FsOk s) (hc : Caches s k i) : Tree (diskAddrs s.sector) i k s := by
  refine ⟨h.volume, h.ptrs.congr ?_⟩
  rintro ⟨j, p⟩
  change ptr s.sector (upd (diskAddrs s.sector) i (s.inode k).addrs j) p =
    ptr s.sector (diskAddrs s.sector j) p
  by_cases hj : j = i
  · subst hj
    rw [upd_same]
    exact ptr_congr (fun p hp => h.addrs hc hp) fun _ => rfl
  · rw [upd_ne hj]

end Live

/-! ### Between a change of a cached inode and its `iupdate` -/

/-- The disk and the inode cache are consistent, but for the copy of inode `i` in slot `k`, which
has changes that are not on the disk yet. -/
structure Pending (s : State) (k i : Nat) : Prop where
  tree : Tree (diskAddrs s.sector) i k s
  caches : Caches s k i
  pos : 1 ≤ i
  lt : i < NINODES
  type : (s.inode k).type ≠ 0
  size : (s.inode k).size ≤ SMALLFILE * BSIZE
  mapped : ∀ o < (s.inode k).size, HasBlock s.sector (s.inode k).addrs o
  size_other : ∀ j ≠ i, live s.sector j = true → (dinode s.sector j).size ≤ SMALLFILE * BSIZE
  mapped_other : ∀ j ≠ i, live s.sector j = true → ∀ o < (dinode s.sector j).size,
    HasBlock s.sector (dinode s.sector j).addrs o
  dev : ∀ k < NINODE, 0 < (s.inode k).ref → (s.inode k).dev = ROOTDEV
  inum : ∀ k < NINODE, 0 < (s.inode k).ref → 1 ≤ (s.inode k).inum ∧ (s.inode k).inum < NINODES
  synced : ∀ k' j, k' ≠ k → Caches s k' j →
    live s.sector j = true ∧ (s.inode k').dinode = dinode s.sector j
  uniq : ∀ k k', k < NINODE → k' < NINODE → 0 < (s.inode k).ref → 0 < (s.inode k').ref →
    (s.inode k).inum = (s.inode k').inum → k = k'

section Pending

variable {s s' : State} {i j k off : Nat} {w : List Byte}

lemma FsOk.pending (h : FsOk s) (hc : Caches s k i) : Pending s k i := by
  obtain ⟨hl, hd⟩ := h.synced k i hc
  obtain ⟨h1, h2, h3⟩ := live_iff.mp hl
  refine ⟨h.tree hc, hc, h1, h2, ?_, ?_, fun o ho => h.hasBlock hc ho, fun j _ => h.size j,
    fun j _ => h.mapped j, h.dev, h.inum, fun k' j _ => h.synced k' j, h.uniq⟩
  · rw [← hd] at h3
    exact h3
  · rw [h.size_eq hc]
    exact h.size i hl

/-- Once the copy agrees with the disk nothing is pending. -/
lemma Pending.ok (h : Pending s k i) (hs : (s.inode k).dinode = dinode s.sector i) : FsOk s := by
  have hl : live s.sector i = true := live_iff.mpr ⟨h.pos, h.lt, by rw [← hs]; exact h.type⟩
  have haddr : ∀ p ≤ NDIRECT, (s.inode k).addrs p = (dinode s.sector i).addrs p := fun p hp => by
    rw [← hs]
    exact (cutAddrs_of_le hp).symm
  have hptr : ∀ p, ptr s.sector (dinode s.sector i).addrs p =
      ptr s.sector (s.inode k).addrs p := fun p =>
    (ptr_congr haddr fun _ => rfl).symm
  refine ⟨h.tree.volume, h.tree.ptrs.congr ?_, fun j hj => ?_, fun j hj o ho => ?_, h.dev,
    h.inum, fun k' j hc => ?_, h.uniq⟩
  · rintro ⟨j, p⟩
    change ptr s.sector (diskAddrs s.sector j) p =
      ptr s.sector (upd (diskAddrs s.sector) i (s.inode k).addrs j) p
    by_cases hj : j = i
    · subst hj
      rw [upd_same, diskAddrs_of_live hl, hptr]
    · rw [upd_ne hj]
  · by_cases hji : j = i
    · subst hji
      rw [← hs]
      exact h.size
    · exact h.size_other j hji hj
  · by_cases hji : j = i
    · subst hji
      rw [← hs] at ho
      have := h.mapped o ho
      unfold HasBlock at this ⊢
      rwa [hptr]
    · exact h.mapped_other j hji hj o ho
  · by_cases hk : k' = k
    · subst hk
      have hij : i = j := h.caches.inum.symm.trans hc.inum
      subst hij
      exact ⟨hl, hs⟩
    · exact h.synced k' j hk hc

/-- Further changes of the copy that keep its blocks. -/
lemma Pending.setInode (h : Pending s k i) (f : Inode → Inode)
    (hdev : (f (s.inode k)).dev = (s.inode k).dev) (hinum : (f (s.inode k)).inum = (s.inode k).inum)
    (href : (f (s.inode k)).ref = (s.inode k).ref)
    (hvalid : (f (s.inode k)).valid = (s.inode k).valid)
    (haddrs : (f (s.inode k)).addrs = (s.inode k).addrs) (htype : (f (s.inode k)).type ≠ 0)
    (hsize : (f (s.inode k)).size ≤ SMALLFILE * BSIZE)
    (hmapped : ∀ o < (f (s.inode k)).size, HasBlock s.sector (s.inode k).addrs o) :
    Pending (s.setInode k f) k i := by
  have hk : (s.setInode k f).inode k = f (s.inode k) := State.setInode_inode_same ..
  have hne : ∀ k', k' ≠ k → (s.setInode k f).inode k' = s.inode k' := fun k' hk' =>
    State.setInode_inode_ne _ _ hk'
  have hrefs : ∀ k', ((s.setInode k f).inode k').ref = (s.inode k').ref := fun k' => by
    by_cases hk' : k' = k
    · rw [hk', hk, href]
    · rw [hne k' hk']
  have hinums : ∀ k', ((s.setInode k f).inode k').inum = (s.inode k').inum := fun k' => by
    by_cases hk' : k' = k
    · rw [hk', hk, hinum]
    · rw [hne k' hk']
  have hdevs : ∀ k', ((s.setInode k f).inode k').dev = (s.inode k').dev := fun k' => by
    by_cases hk' : k' = k
    · rw [hk', hk, hdev]
    · rw [hne k' hk']
  refine ⟨⟨h.tree.volume.congr rfl rfl rfl rfl rfl, ?_⟩, ⟨h.caches.lt, ?_, ?_, ?_⟩, h.pos, h.lt, ?_,
    ?_, ?_, h.size_other, h.mapped_other, fun k' hk' hr => ?_, fun k' hk' hr => ?_,
      fun k' j hk' hc => ?_,
    fun k1 k2 h1 h2 hr1 hr2 he => ?_⟩
  · rw [hk, haddrs]
    exact h.tree.ptrs
  · rw [hrefs]
    exact h.caches.ref
  · rw [hinums]
    exact h.caches.inum
  · rw [hk, hvalid]
    exact h.caches.valid
  · rw [hk]
    exact htype
  · rw [hk]
    exact hsize
  · rw [hk, haddrs]
    exact hmapped
  · rw [hdevs]
    exact h.dev k' hk' (hrefs k' ▸ hr)
  · rw [hinums]
    exact h.inum k' hk' (hrefs k' ▸ hr)
  · have hc' : Caches s k' j :=
      ⟨hc.lt, hrefs k' ▸ hc.ref, hinums k' ▸ hc.inum, hne k' hk' ▸ hc.valid⟩
    rw [hne k' hk']
    exact h.synced k' j hk' hc'
  · rw [hrefs] at hr1 hr2
    rw [hinums, hinums] at he
    exact h.uniq k1 k2 h1 h2 hr1 hr2 he

end Pending

/-! ### `iupdate` -/

section Iupdate

variable {A : Nat → Nat → Nat} {s s' : State} {i j k b : Nat} {data : Bytes}

/-- Logging an inode block changes no pointer. -/
lemma Tree.logged_inode (h : Tree A i k s) (hb : b < BITSTART) (h1 : b ≠ 1)
    (hlen : s.log.lh.length < LOGCAP) : Tree A i k (s.logged b data) := by
  have hblt : b < LOGSTART := hb.trans (by decide)
  have hdata : ∀ c, Data s.sector c → c ≠ b := fun c hc e => by
    have : DATASTART ≤ b := e ▸ hc.1
    simp only [BITSTART, DATASTART] at *
    omega
  obtain ⟨hvol, hused⟩ : Volume (s.logged b data) ∧ _ :=
    h.volume.logged hblt h1 (fun hnb => absurd hnb.1 (Nat.not_le.mpr hb)) hlen
  refine ⟨hvol, (h.ptrs.congr ?_).mono fun c hc =>
    ⟨hc.1, hc.2.1, (hused c hc.lt_size).trans hc.2.2⟩⟩
  rintro ⟨j, p⟩
  refine ptr_congr (fun _ _ => rfl) fun hi => ?_
  have hd := h.ptrs.valid (j, NDIRECT) (by rwa [Xv6.ptrs, ptr_direct le_rfl])
  rw [Xv6.ptrs, ptr_direct le_rfl] at hd
  exact h.volume.sector_logged_ne hd.2.1 (hdata _ hd)

/-- The numbers of a cached inode with a consistent block tree fit the disk. -/
lemma Tree.fits (h : Tree A i k s) (hsize : (s.inode k).size ≤ SMALLFILE * BSIZE) :
    (s.inode k).Fits := by
  refine ⟨hsize.trans_lt (by decide), fun p hp => ?_⟩
  by_cases h0 : (s.inode k).addrs p = 0
  · rw [h0]
    decide
  · have hd := h.own (q := p) (by rwa [ptr_direct hp])
    rw [ptr_direct hp] at hd
    exact hd.2.1.trans (by decide)

/-- `s'` is `s` after the copy of inode `i` in slot `k` was written to the disk. -/
structure Updated (s : State) (k i : Nat) (s' : State) : Prop where
  disk : OnlyDisk s s'
  ok : FsOk s'
  node_eq : node s'.sector = upd (node s.sector) i
    ⟨(s.inode k).type, (s.inode k).major, (s.inode k).minor, (s.inode k).nlink,
      fileData s.sector (s.inode k).dinode⟩
  other : ∀ j ≠ i, ∀ p, ptr s'.sector (diskAddrs s'.sector j) p =
    ptr s.sector (diskAddrs s.sector j) p
  free_eq : freeBlocks s'.sector = freeBlocks s.sector
  sector : ∀ c < LOGSTART, c ≠ IBLOCK i → s'.sector c = s.sector c
  lh : s'.log.lh = if IBLOCK i ∈ s.log.lh then s.log.lh else s.log.lh ++ [IBLOCK i]

lemma byteAt_congr {sect sect' : Nat → Bytes} {a a' : Nat → Nat} {o : Nat}
    (hp : ptr sect' a' (posOf (o / BSIZE)) = ptr sect a (posOf (o / BSIZE)))
    (hs : sect' (ptr sect a (posOf (o / BSIZE))) = sect (ptr sect a (posOf (o / BSIZE)))) :
    byteAt sect' a' o = byteAt sect a o := by
  unfold byteAt
  rw [hp, hs]

/-- The state once the copy of inode `i` in slot `k` is in the log. -/
abbrev State.updated (s : State) (k i : Nat) : State :=
  s.logged (IBLOCK i) (putDinode (s.sector (IBLOCK i)) (i % IPB) (s.inode k))

namespace Pending

lemma sector_data (h : Pending s k i) (hc : Data s.sector b) :
    (s.updated k i).sector b = s.sector b := by
  refine h.tree.volume.sector_logged_ne hc.2.1 fun e => ?_
  have hdata : DATASTART ≤ IBLOCK i := e ▸ hc.1
  have hblk := IBLOCK_lt h.lt
  simp only [BITSTART, DATASTART] at *
  omega

lemma dinode_updated (h : Pending s k i) (hj : j < NINODES) : dinode (s.updated k i).sector j =
    if j = i then (s.inode k).dinode else dinode s.sector j := by
  rw [← dinode_upd_putDinode (h.tree.fits h.size)]
  exact dinode_congr (h.tree.volume.sector_logged ((IBLOCK_lt hj).trans (by decide)))

lemma live_other (h : Pending s k i) (hj : j ≠ i) :
    live (s.updated k i).sector j = live s.sector j := by
  unfold live
  by_cases hlt : j < NINODES
  · rw [h.dinode_updated hlt, if_neg hj]
  · simp [hlt]

lemma dinode_other (h : Pending s k i) (hj : j ≠ i) (hl : live s.sector j = true) :
    dinode (s.updated k i).sector j = dinode s.sector j := by
  rw [h.dinode_updated (live_iff.mp hl).2.1, if_neg hj]

lemma diskAddrs_other (h : Pending s k i) (hj : j ≠ i) :
    diskAddrs (s.updated k i).sector j = diskAddrs s.sector j := by
  unfold diskAddrs
  rw [h.live_other hj]
  split_ifs with hl
  · rw [h.dinode_other hj hl]
  · rfl

lemma ptr_updated (h : Pending s k i) (p : Nat) :
    ptr (s.updated k i).sector (s.inode k).addrs p = ptr s.sector (s.inode k).addrs p :=
  ptr_congr (fun _ _ => rfl) fun hi => h.sector_data (h.tree.indirect hi)

lemma ptr_other (h : Pending s k i) (hj : j ≠ i) (hl : live s.sector j = true) (p : Nat) :
    ptr (s.updated k i).sector (dinode s.sector j).addrs p =
      ptr s.sector (dinode s.sector j).addrs p := by
  rw [← diskAddrs_of_live hl]
  exact h.tree.ptr_other hj fun c hc _ => h.sector_data hc

lemma tree_updated (h : Pending s k i) (hlen : s.log.lh.length < LOGCAP) :
    Tree (diskAddrs (s.updated k i).sector) i k (s.updated k i) := by
  have htree : Tree (diskAddrs s.sector) i k (s.updated k i) :=
    h.tree.logged_inode (IBLOCK_lt h.lt) (by rw [IBLOCK_eq]; omega) hlen
  refine ⟨htree.volume, htree.ptrs.congr ?_⟩
  rintro ⟨j, p⟩
  by_cases hj : j = i
  · subst hj
    simp only [Xv6.ptrs, upd_same]
  · simp only [Xv6.ptrs, upd_ne hj, h.diskAddrs_other hj]

lemma ok_updated (h : Pending s k i) (hlen : s.log.lh.length < LOGCAP) :
    FsOk (s.updated k i) := by
  refine ok (k := k) (i := i) ⟨h.tree_updated hlen, ?_, h.pos, h.lt, h.type, h.size,
    fun o ho => ?_, fun j hj hl => ?_, fun j hj hl o ho => ?_, h.dev, h.inum,
    fun k' j hk' hc => ?_, h.uniq⟩ ?_
  · exact ⟨h.caches.lt, h.caches.ref, h.caches.inum, h.caches.valid⟩
  · have := h.mapped o ho
    unfold HasBlock at this ⊢
    rwa [logged_inode, h.ptr_updated]
  · rw [h.live_other hj] at hl
    rw [h.dinode_other hj hl]
    exact h.size_other j hj hl
  · rw [h.live_other hj] at hl
    rw [h.dinode_other hj hl] at ho ⊢
    have := h.mapped_other j hj hl o ho
    unfold HasBlock at this ⊢
    rwa [h.ptr_other hj hl]
  · have hj : j ≠ i := fun e => hk' (h.uniq k' k hc.lt h.caches.lt hc.ref h.caches.ref
      (hc.inum.trans (e.trans h.caches.inum.symm)))
    obtain ⟨hl, hd⟩ := h.synced k' j hk' ⟨hc.lt, hc.ref, hc.inum, hc.valid⟩
    exact ⟨(h.live_other hj).trans hl, hd.trans (h.dinode_other hj hl).symm⟩
  · rw [h.dinode_updated h.lt, if_pos rfl]
    rfl

/-- The file of inode `i` is now the one of the copy, and the others are as before. -/
lemma node_updated (h : Pending s k i) : node (s.updated k i).sector = upd (node s.sector) i
    ⟨(s.inode k).type, (s.inode k).major, (s.inode k).minor, (s.inode k).nlink,
      fileData s.sector (s.inode k).dinode⟩ := by
  funext j
  by_cases hj : j = i
  · subst hj
    have hl : live (s.updated k j).sector j = true :=
      live_iff.mpr ⟨h.pos, h.lt, by rw [h.dinode_updated h.lt, if_pos rfl]; exact h.type⟩
    rw [upd_same, node_of_live hl, h.dinode_updated h.lt, if_pos rfl]
    congr 1
    refine List.map_congr_left fun o ho => ?_
    have hb := h.mapped o (List.mem_range.mp ho)
    refine byteAt_congr ?_ ?_
    · rw [Inode.dinode, ptr_cutAddrs, ptr_cutAddrs, h.ptr_updated]
    · rw [Inode.dinode, ptr_cutAddrs]
      exact h.sector_data (h.tree.own hb)
  · rw [upd_ne hj]
    cases hl : live s.sector j with
    | false => rw [node_of_free hl, node_of_free ((h.live_other hj).trans hl)]
    | true =>
      refine node_congr (h.dinode_other hj hl) fun _ o ho => ?_
      have hb := h.mapped_other j hj hl o ho
      refine byteAt_congr (h.ptr_other hj hl _) (h.sector_data ?_)
      unfold HasBlock at hb
      rw [← diskAddrs_of_live hl] at hb ⊢
      exact h.tree.other hj hb

lemma updated (h : Pending s k i) (hlen : s.log.lh.length < LOGCAP) :
    Updated s k i (s.updated k i) := by
  have hblk := IBLOCK_lt h.lt
  refine ⟨onlyDisk_logged .., h.ok_updated hlen, h.node_updated, fun j hj p => ?_, ?_,
    fun c hc hne => h.tree.volume.sector_logged_ne hc hne, rfl⟩
  · rw [h.diskAddrs_other hj]
    exact h.tree.ptr_other hj fun c hc _ => h.sector_data hc
  · refine freeBlocks_congr
      (h.tree.volume.logged (hblk.trans (by decide)) ?_ (fun hnb => ?_) hlen).2
    · rw [IBLOCK_eq]
      omega
    · exact absurd hnb.1 (Nat.not_le.mpr hblk)

end Pending

variable {Q : Unit → State → Prop} {E : Option Panic → State → Prop}

lemma wp_iupdate (h : Pending s k i) (hE : Room s 1 ∨ ∀ e s', E e s')
    (hQ : ∀ s', Updated s k i s' → s.log.busy = true → Q () s') : (iupdate k).wp Q E s := by
  unfold iupdate
  have hlt : IBLOCK i < FSSIZE := (IBLOCK_lt h.lt).trans (by decide)
  rw [wp_read, h.dev k h.caches.lt h.caches.ref, h.caches.inum]
  exact wp_bread h.tree.volume.toLayout hlt (wp_logWrite h.tree.volume.toLayout hE
    fun hbusy hlen => hQ _ (h.updated hlen) hbusy)

end Iupdate

end Xv6
