import Xv6.Fs.MkfsMain
import Xv6.Fs.Cache

/-!
# The kernel reads what `mkfs` wrote

`mkfs` and the kernel have each their own block map and their own layout of directories. On the
image of `mkfs`, `namei` finds every host file by its name, and `readi` returns its bytes.
-/

namespace Xv6

open Lib Prog Mkfs List

/-! ### Names -/

section Names

variable {a b : List Byte} {p q : Bytes} {i j n : Nat}

/-- `strncmp` compares up to the first NUL. -/
lemma strncmp_eq_zero_iff :
    strncmp p q i n = 0 ↔ ∀ j < n, (∀ l < j, p (i + l) ≠ 0) → p (i + j) = q (i + j) := by
  induction n generalizing i with
  | zero => simp [strncmp]
  | succ n ih =>
    unfold strncmp
    split_ifs with h
    · rw [ih]
      constructor
      · intro hall j hj hl
        cases j with
        | zero => exact h.2
        | succ j =>
          have := hall j (by omega) fun l hlj => by
            rw [show i + 1 + l = i + (l + 1) by omega]
            exact hl _ (by omega)
          rwa [show i + 1 + j = i + (j + 1) by omega] at this
      · intro hall j hj hl
        rw [show i + 1 + j = i + (j + 1) by omega]
        refine hall (j + 1) (by omega) fun l hlj => ?_
        cases l with
        | zero => exact h.1
        | succ l =>
          rw [show i + (l + 1) = i + 1 + l by omega]
          exact hl l (by omega)
    · constructor
      · intro h0 j _ hl
        have heq : p i = q i := BitVec.eq_of_toNat_eq (by omega)
        cases j with
        | zero => exact heq
        | succ j => exact absurd ⟨hl 0 (by omega), heq⟩ h
      · intro hall
        rw [show p i = q i from hall 0 (by omega) fun l hl => by omega]
        omega

lemma cstr_eq_zero_iff (ha : (0 : Byte) ∉ a) : cstr a i = 0 ↔ a.length ≤ i := by
  unfold cstr
  constructor
  · intro h0
    by_contra hi
    rw [getD_eq_getElem _ _ (by omega)] at h0
    exact ha (h0 ▸ getElem_mem _)
  · exact getD_eq_default _ _

/-- `strncpy` of a string fills up with NULs. -/
lemma strncpy_getD (hb : (0 : Byte) ∉ b) (hj : j < n) :
    (strncpy (cstr b) i n).getD j 0 = cstr b (i + j) := by
  induction n generalizing i j with
  | zero => omega
  | succ n ih =>
    unfold strncpy
    split_ifs with h0
    · rw [getD_replicate _ hj, eq_comm, cstr_eq_zero_iff hb]
      rw [cstr_eq_zero_iff hb] at h0
      omega
    · cases j with
      | zero => rfl
      | succ j =>
        rw [getD_cons_succ, ih (by omega)]
        congr 1
        omega

lemma direntName_mkDirent (hb : (0 : Byte) ∉ b) (hj : j < DIRSIZ) :
    direntName (mkDirent n b) j = cstr b j := by
  have := strncpy_getD (i := 0) hb hj
  rw [Nat.zero_add] at this
  rw [← this]
  unfold direntName mkDirent
  rw [cstr, getD_append_right _ _ _ _ (by simp)]
  congr 1
  simp

lemma direntInum_mkDirent (hn : n < 2 ^ 16) : direntInum (mkDirent n b) = n := by
  unfold direntInum mkDirent
  simp [Bytes.le, cstr]
  omega

/-- Two names are the same to the kernel if they agree in their first `DIRSIZ` bytes. -/
lemma namecmp_mkDirent (ha : (0 : Byte) ∉ a) (hb : (0 : Byte) ∉ b) :
    namecmp (cstr a) (direntName (mkDirent n b)) = 0 ↔ a.take DIRSIZ = b.take DIRSIZ := by
  unfold namecmp
  rw [strncmp_eq_zero_iff]
  simp only [Nat.zero_add]
  constructor
  · intro hall
    have hcmp : ∀ j < DIRSIZ, j ≤ a.length → cstr a j = cstr b j := fun j hj hja =>
      (hall j hj fun l hl => by rw [Ne, cstr_eq_zero_iff ha]; omega).trans
        (direntName_mkDirent hb hj)
    refine ext_getElem? fun j => ?_
    rcases Nat.lt_or_ge j DIRSIZ with hj | hj
    · rw [getElem?_take_of_lt hj, getElem?_take_of_lt hj]
      rcases Nat.lt_or_ge j a.length with hja | hja
      · have heq := hcmp j hj hja.le
        have hjb : j < b.length := by
          by_contra hge
          rw [(cstr_eq_zero_iff hb).mpr (by omega), cstr_eq_zero_iff ha] at heq
          omega
        unfold cstr at heq
        rw [getD_eq_getElem _ _ hja, getD_eq_getElem _ _ hjb] at heq
        rw [getElem?_eq_getElem hja, getElem?_eq_getElem hjb, heq]
      · have heq := hcmp a.length (by omega) le_rfl
        rw [(cstr_eq_zero_iff ha).mpr le_rfl, eq_comm, cstr_eq_zero_iff hb] at heq
        rw [List.getElem?_eq_none hja, List.getElem?_eq_none (heq.trans hja)]
    · rw [List.getElem?_eq_none, List.getElem?_eq_none] <;>
      exact (length_take_le ..).trans hj
  · intro heq j hj _
    have hget : ∀ l : List Byte, cstr l j = (l.take DIRSIZ).getD j 0 := fun l => by
      rw [cstr, getD_eq_getElem?_getD, getD_eq_getElem?_getD, getElem?_take_of_lt hj]
    rw [direntName_mkDirent hb hj, hget a, hget b, heq]

end Names

/-! ### The nodes of the image -/

section Nodes

variable {files : List HostFile} {img : Image}

/-- The bytes of a directory with the given entries. -/
def dirents (es : List (Nat × List Byte)) : List Byte := es.flatMap fun e => mkDirent e.1 e.2

/-- The entries of the root directory. -/
def rootEntries (files : List HostFile) : List (Nat × List Byte) :=
  (ROOTINO, dot) :: (ROOTINO, dotdot) :: (files.zipIdx 2).map fun f => (f.2, f.1.imgName)

lemma addNodes_root {fs : List HostFile} : ∀ {N : Nat → Node} {n : Nat}, ROOTINO < n →
    addNodes N n fs ROOTINO = { N ROOTINO with
      data := (N ROOTINO).data ++ (fs.zipIdx n).flatMap fun f => mkDirent f.2 f.1.imgName } := by
  induction fs with
  | nil => intro N n _; simp [addNodes]
  | cons f fs ih =>
    intro N n hn
    rw [addNodes, ih (by omega), addNode, upd_ne (Nat.ne_of_lt hn), upd_same, zipIdx_cons,
      flatMap_cons, append_assoc]

/-- The files get the inode numbers from `n` on. -/
lemma addNodes_file {fs : List HostFile} : ∀ {N : Nat → Node} {n j : Nat} (hj : j < fs.length),
    ROOTINO < n → addNodes N n fs (n + j) = ⟨T_FILE, 0, 0, 1, fs[j].data⟩ := by
  have hkeep : ∀ (fs : List HostFile) (N : Nat → Node) (n i : Nat), i ≠ ROOTINO → i < n →
      addNodes N n fs i = N i := by
    intro fs
    induction fs with
    | nil => intro N n i _ _; rfl
    | cons f fs ih =>
      intro N n i h1 hi
      rw [addNodes, ih _ _ _ h1 (by omega), addNode, upd_ne (by omega), upd_ne h1]
  induction fs with
  | nil => intro N n j hj _; exact absurd hj (Nat.not_lt_zero j)
  | cons f fs ih =>
    intro N n j hj hn
    rw [addNodes]
    cases j with
    | zero =>
      change addNodes (addNode N n f) (n + 1) fs n = _
      rw [hkeep _ _ _ _ (Nat.ne_of_gt hn) (by omega), addNode, upd_same]
      rfl
    | succ j =>
      rw [show n + (j + 1) = n + 1 + j by omega, ih (by simpa using hj) (by omega)]
      rfl

lemma root_node : addNodes rootNodes 2 files ROOTINO =
    ⟨T_DIR, 0, 0, 1, dirents (rootEntries files)⟩ := by
  rw [addNodes_root (by decide), rootNodes, upd_same, dirents, rootEntries, flatMap_cons,
    flatMap_cons, flatMap_map, append_assoc]

/-- What the kernel finds in inode `i` of the disk. The size may be larger than the data. -/
structure NodeAt (sect : Nat → Bytes) (i : Nat) (N : Node) : Prop where
  block : IBLOCK i < FSSIZE
  type : (dinode sect i).type = N.type
  nlink : (dinode sect i).nlink = N.nlink
  used : N.type ≠ 0
  length : N.data.length ≤ SMALLFILE * BSIZE
  size : N.data.length ≤ (dinode sect i).size
  max : (dinode sect i).size < 2 ^ 31
  bytes : ∀ o < N.data.length, HasBlock sect (dinode sect i).addrs o ∧
    byteAt sect (dinode sect i).addrs o = N.data.getD o 0
  ptrs : ∀ q, ptr sect (dinode sect i).addrs q ≠ 0 → ptr sect (dinode sect i).addrs q < FSSIZE

/-- The image `img` of `main`, and the image `a` before its last two writes. -/
structure Finished (F : Nat → Node) (a img : Image) : Prop where
  packed : Mkfs.Packed a F
  filled : Filled a F
  max : a.freeblock < 4096
  data : ∀ c, DATASTART ≤ c → img.sect c = a.sect c
  used : ∀ b < FSSIZE, used img.sect b = decide (b < a.freeblock)
  dinode : ∀ i < INODEROOM, Xv6.dinode img.sect i = { Xv6.dinode a.sect i with
    size := if i = ROOTINO then ((Xv6.dinode a.sect i).size / BSIZE + 1) * BSIZE
      else (Xv6.dinode a.sect i).size }

/-- `main` leaves the inodes as they were packed, but for the size of the root directory. -/
lemma finished_main (h : main files = some img) (hlen : files.length + 2 ≤ INODEROOM) :
    ∃ a, Finished (addNodes rootNodes 2 files) a img ∧ a.freeinode = files.length + 2 := by
  obtain ⟨r, a, hr, ha, hu, rfl⟩ := main_eq h
  obtain ⟨hp, hfree, hcount, hmax, hfill⟩ := packed_files hr ha hu hlen
  have hroot := hp.file ROOTINO (by decide) (by simp only [ROOTINO]; omega)
  have hsize : (rinode a ROOTINO).size ≤ SMALLFILE * BSIZE :=
    (show (rinode a ROOTINO).size = _ from hroot.size).trans_le hroot.length
  refine ⟨a, ⟨hp, hfill, hmax, fun c hc => ?_, fun b hb => ?_, fun i hi => ?_⟩, hfree⟩
  · refine (upd_ne ?_).trans (winode_sect_ne ?_) <;>
    simp only [BITSTART, DATASTART, IBLOCK_eq, ROOTINO] at * <;> omega
  · rw [hcount]
    exact used_bitmap (hp.fresh.winode (by decide)) hmax hb
  · refine (dinode_congr (upd_ne (Nat.ne_of_lt (IBLOCK_room hi)))).trans ?_
    rw [dinode_winode (hp.fitsDisk (by decide) (by simp only [ROOTINO]; omega)
      (hmax.trans (by decide)) (by
        simp only [SMALLFILE, NDIRECT, NINDIRECT, BSIZE] at *
        omega))]
    split_ifs with hi1
    · rw [hi1]
      rfl
    · rfl

section Finished

variable {F : Nat → Node} {a : Image} {i : Nat}

/-- The pointers of the inodes stay. -/
lemma Finished.ptr_eq (h : Finished F a img) (hi : 1 ≤ i) (hlt : i < a.freeinode) (q : Nat) :
    ptr img.sect (Xv6.dinode img.sect i).addrs q = ptr a.sect (Xv6.dinode a.sect i).addrs q := by
  rw [h.dinode i (hlt.trans_le h.packed.le)]
  refine ptr_congr (fun _ _ => rfl) fun h0 => h.data _ ?_
  have := h.packed.own (q := NDIRECT) hi hlt
  rw [ptr_direct le_rfl] at this
  exact (this h0).1

/-- A byte of an inode stays. -/
lemma Finished.byteAt_eq (h : Finished F a img) (hi : 1 ≤ i) (hlt : i < a.freeinode) {o : Nat}
    (hb : HasBlock a.sect (Xv6.dinode a.sect i).addrs o) :
    HasBlock img.sect (Xv6.dinode img.sect i).addrs o ∧
      byteAt img.sect (Xv6.dinode img.sect i).addrs o =
        byteAt a.sect (Xv6.dinode a.sect i).addrs o := by
  unfold HasBlock at hb ⊢
  rw [h.ptr_eq hi hlt]
  exact ⟨hb, byteAt_congr (h.ptr_eq hi hlt _) (h.data _ (h.packed.own hi hlt hb).1)⟩

/-- What the kernel finds, if the bytes `D` have blocks in the image. -/
lemma Finished.nodeAt (h : Finished F a img) (hi : 1 ≤ i) (hlt : i < a.freeinode) {D : List Byte}
    (hlen : D.length ≤ SMALLFILE * BSIZE) (hsize : D.length ≤ (Xv6.dinode img.sect i).size)
    (hbytes : ∀ o < D.length, HasBlock a.sect (Xv6.dinode a.sect i).addrs o ∧
      byteAt a.sect (Xv6.dinode a.sect i).addrs o = D.getD o 0) :
    NodeAt img.sect i { F i with data := D } := by
  have hroom : i < INODEROOM := hlt.trans_le h.packed.le
  have hs := h.packed.file i hi hlt
  have hd := h.dinode i hroom
  refine ⟨(IBLOCK_room hroom).trans (by decide), by rw [hd]; exact hs.type,
    by rw [hd]; exact hs.nlink, hs.used, hlen, hsize, ?_, fun o ho => ?_, fun q hq => ?_⟩
  · have hmax := hs.length
    rw [← hs.size] at hmax
    have hsz := congrArg Dinode.size hd
    simp only [SMALLFILE, NDIRECT, NINDIRECT, BSIZE] at hmax hsz
    split_ifs at hsz <;> omega
  · obtain ⟨hb, hbyte⟩ := hbytes o ho
    obtain ⟨hb', hbyte'⟩ := h.byteAt_eq hi hlt hb
    exact ⟨hb', hbyte'.trans hbyte⟩
  · rw [h.ptr_eq hi hlt] at hq ⊢
    exact ((h.packed.own hi hlt hq).2.trans h.max).trans (by decide)

end Finished

/-- `main` leaves the nodes as they were packed, but for the size of the root directory. -/
lemma nodeAt_main (h : main files = some img) (hlen : files.length + 2 ≤ INODEROOM) {i : Nat}
    (hi : 1 ≤ i) (hlt : i < files.length + 2) :
    NodeAt img.sect i (addNodes rootNodes 2 files i) ∧
      (i ≠ ROOTINO → (dinode img.sect i).size = (addNodes rootNodes 2 files i).data.length) := by
  obtain ⟨a, hf, hfree⟩ := finished_main h hlen
  have hs := hf.packed.file i hi (by omega)
  have hsize := congrArg Dinode.size (hf.dinode i (by omega))
  rw [hs.size] at hsize
  refine ⟨hf.nodeAt hi (by omega) hs.length ?_ hs.bytes, fun hi1 => ?_⟩
  · rw [hsize]
    simp only [BSIZE]
    split_ifs <;> omega
  · rw [hsize]
    exact if_neg hi1

end Nodes

/-! ### Reading a loaded inode -/

/-- Slot `k` of the cache was loaded from inode `i`. -/
structure Loaded (s : State) (k i : Nat) : Prop where
  dev : (s.inode k).dev = ROOTDEV
  dinode : (s.inode k).dinode = dinode s.sector i

/-- The `m`th entry of a directory. -/
lemma take_drop_dirents : ∀ {es : List (Nat × List Byte)} {m : Nat} (hm : m < es.length),
    ((dirents es).drop (DIRENTSIZE * m)).take DIRENTSIZE = mkDirent es[m].1 es[m].2 := by
  intro es
  induction es with
  | nil => intro m hm; exact absurd hm (Nat.not_lt_zero m)
  | cons e es ih =>
    intro m hm
    rw [dirents, flatMap_cons]
    cases m with
    | zero => exact take_left' (length_mkDirent ..)
    | succ m =>
      have hlen : (mkDirent e.1 e.2).length = DIRENTSIZE := length_mkDirent ..
      rw [Nat.mul_succ, Nat.add_comm, ← drop_drop, drop_left' hlen]
      exact ih (by simpa using hm)

lemma length_dirents (es : List (Nat × List Byte)) :
    (dirents es).length = DIRENTSIZE * es.length := by
  simp only [dirents, length_flatMap, length_mkDirent, map_const', sum_replicate]
  exact Nat.mul_comm ..

section Loaded

variable {s : State} {i k p off n : Nat} {N : Node}

lemma Loaded.type (h : Loaded s k i) (hN : NodeAt s.sector i N) : (s.inode k).type = N.type :=
  (congrArg Dinode.type h.dinode).trans hN.type

lemma Loaded.size (h : Loaded s k i) : (s.inode k).size = (Xv6.dinode s.sector i).size :=
  congrArg Dinode.size h.dinode

/-- The block map that `mkfs` wrote is the one that the kernel follows. -/
lemma Loaded.mapped (h : Loaded s k i) (hN : NodeAt s.sector i N) (hd : s.disksize = FSSIZE) :
    Mapped s k N.data.length ∧ ∀ o < N.data.length, fileByte s k o = N.data.getD o 0 := by
  have hptr : ∀ q, ptr s.sector (s.inode k).addrs q = ptr s.sector
      (Xv6.dinode s.sector i).addrs q :=
    fun q => by
    rw [← h.dinode]
    exact (ptr_cutAddrs ..).symm
  have hind : (s.inode k).addrs NDIRECT ≠ 0 → (s.inode k).addrs NDIRECT < s.disksize := fun h0 => by
    have := hN.ptrs NDIRECT
    rw [← hptr, ptr_direct le_rfl] at this
    exact hd ▸ this h0
  have hfind : ∀ o < N.data.length, bmapFind s k (o / BSIZE) =
      some (ptr s.sector (Xv6.dinode s.sector i).addrs (posOf (o / BSIZE))) := fun o ho => by
    have hb := (hN.bytes o ho).1
    have hlen := hN.length
    unfold HasBlock at hb
    rw [← hptr] at hb ⊢
    refine bmapFind_eq_ptr ?_ hb hind
    simp only [SMALLFILE, NDIRECT, NINDIRECT, BSIZE] at *
    omega
  constructor
  · intro bn hbn
    have := hfind (bn * BSIZE) hbn
    have hb := (hN.bytes _ hbn).1
    rw [Nat.mul_div_cancel _ (by decide)] at this
    unfold HasBlock at hb
    rw [Nat.mul_div_cancel _ (by decide)] at hb
    exact ⟨_, this, hd ▸ hN.ptrs _ hb⟩
  · intro o ho
    unfold fileByte
    rw [hfind o ho]
    exact (hN.bytes o ho).2

lemma Loaded.run_readDirent {es : List (Nat × List Byte)} {m : Nat} {e : Panic}
    (h : Loaded s k i) (hN : NodeAt s.sector i N) (hd : s.disksize = FSSIZE) (ht : N.type = T_DIR)
    (hes : N.data = dirents es) (hm : m < es.length) :
    (readDirent k (DIRENTSIZE * m) e).run s = .ok (mkDirent es[m].1 es[m].2) s := by
  have hds : DIRENTSIZE = 16 := rfl
  have hlen : N.data.length = DIRENTSIZE * es.length := hes ▸ length_dirents es
  have hsize := hN.size
  have hmax := hN.max
  rw [← h.size] at hsize hmax
  obtain ⟨hmap, hbyte⟩ := h.mapped hN hd
  have hread : readiLen (s.inode k).size (DIRENTSIZE * m) DIRENTSIZE = some DIRENTSIZE := by
    unfold readiLen
    rw [hds] at hlen ⊢
    rw [if_neg (by omega), if_neg (by omega)]
  have hle : DIRENTSIZE * m + DIRENTSIZE ≤ N.data.length := by
    rw [hds] at hlen ⊢
    omega
  refine run_bind_ok (run_readi h.dev ?_ hread fun bn hbn => hmap bn (hbn.trans_le hle)) ?_
  · rw [h.type hN, ht]
    decide
  · dsimp only
    rw [if_pos (by decide), fileBytes_eq_take hbyte hle, hes]
    exact congrArg (Res.ok · s) (take_drop_dirents hm)

/-- The search for a name passes over entries that are empty or have other names. -/
lemma Loaded.run_dirlookupLoop {es : List (Nat × List Byte)} {m : Nat} {name : List Byte}
    (h : Loaded s k i) (hN : NodeAt s.sector i N) (hd : s.disksize = FSSIZE) (ht : N.type = T_DIR)
    (hes : N.data = dirents es) (hm : m ≤ es.length)
    (hskip : ∀ j (hj : j < m), ¬(direntInum (mkDirent es[j].1 es[j].2) ≠ 0 ∧
      namecmp (cstr name) (direntName (mkDirent es[j].1 es[j].2)) = 0)) (fuel : Nat) :
    (dirlookupLoop k name 0 (m + fuel)).run s =
      (dirlookupLoop k name (DIRENTSIZE * m) fuel).run s := by
  have hds : DIRENTSIZE = 16 := rfl
  have hlen : N.data.length = DIRENTSIZE * es.length := hes ▸ length_dirents es
  have hsize := hN.size
  rw [← h.size] at hsize
  induction m generalizing fuel with
  | zero => rw [Nat.zero_add, Nat.mul_zero]
  | succ m ih =>
    rw [Nat.add_right_comm, Nat.add_assoc, ih (by omega) (fun j hj => hskip j (by omega))]
    refine run_bind_ok (run_read _) ?_
    rw [if_pos (by rw [hds] at hlen ⊢; omega)]
    refine run_bind_ok (h.run_readDirent hN hd ht hes (by omega)) ?_
    rw [if_neg (hskip m (by omega))]
    rfl

/-- The search for a name ends at the first entry with that name. -/
lemma Loaded.run_dirlookup {es : List (Nat × List Byte)} {m : Nat} {name : List Byte}
    (h : Loaded s k i) (hN : NodeAt s.sector i N) (hd : s.disksize = FSSIZE) (ht : N.type = T_DIR)
    (hes : N.data = dirents es)
    (hok : ∀ e ∈ es, e.1 ≠ 0 ∧ e.1 < 2 ^ 16 ∧ (0 : Byte) ∉ e.2) (hname : (0 : Byte) ∉ name)
    (hm : m < es.length) (hmatch : name.take DIRSIZ = es[m].2.take DIRSIZ)
    (hfirst : ∀ j (hj : j < m), name.take DIRSIZ ≠ es[j].2.take DIRSIZ) :
    (dirlookup k name).run s =
      (do let ip ← iget ROOTDEV es[m].1; pure (some (ip, DIRENTSIZE * m)) : K _).run s := by
  have hds : DIRENTSIZE = 16 := rfl
  have hlen : N.data.length = DIRENTSIZE * es.length := hes ▸ length_dirents es
  have hsize := hN.size
  rw [← h.size] at hsize
  obtain ⟨h1, h2, h3⟩ := hok _ (getElem_mem hm)
  refine run_bind_ok (run_read _) ?_
  rw [if_neg (not_not.mpr ((h.type hN).trans ht)),
    show (s.inode k).size + 1 = m + ((s.inode k).size - m + 1) by rw [hds] at hlen; omega,
    h.run_dirlookupLoop hN hd ht hes hm.le fun j hj hc => ?_]
  · refine run_bind_ok (run_read _) ?_
    rw [if_pos (by rw [hds] at hlen ⊢; omega)]
    refine run_bind_ok (h.run_readDirent hN hd ht hes hm) ?_
    rw [direntInum_mkDirent h2, if_pos ⟨h1, (namecmp_mkDirent hname h3).mpr hmatch⟩, h.dev]
  · obtain ⟨-, -, h3⟩ := hok _ (getElem_mem (hj.trans hm))
    exact hfirst j hj ((namecmp_mkDirent hname h3).mp hc.2)

end Loaded

/-! ### `namei` after boot -/

section Namei

variable {sect : Nat → Bytes} {b : State} {r x : Inode} {i k p m : Nat} {f : Inode → Inode}

/-- The file system of `b` is as after boot from the sectors `sect`. -/
structure Booted (sect : Nat → Bytes) (b : State) : Prop where
  sector : b.sector = sect
  disksize : b.disksize = (boot sect).disksize
  inode : b.inode = (boot sect).inode

lemma booted_boot : Booted sect (boot sect) := ⟨rfl, rfl, rfl⟩

/-- The state `b` with other entries in the first two slots of the cache. -/
def bootWith (b : State) (r x : Inode) : State :=
  { b with inode := upd (upd (fun _ => {}) 0 r) 1 x }

lemma Booted.eq_bootWith (hb : Booted sect b) :
    b = bootWith b { dev := ROOTDEV, inum := ROOTINO, ref := 1 } {} := by
  have h : upd (upd (fun _ => ({} : Inode)) 0 { dev := ROOTDEV, inum := ROOTINO, ref := 1 }) 1 {} =
      b.inode := by
    rw [hb.inode]
    funext j
    rcases j with _ | _ | j <;> rfl
  rw [bootWith, h]

@[simp] lemma bootWith_sector : (bootWith b r x).sector = b.sector := rfl

@[simp] lemma bootWith_disksize : (bootWith b r x).disksize = b.disksize := rfl

@[simp] lemma bootWith_zero : (bootWith b r x).inode 0 = r := by
  simp [bootWith, upd]

@[simp] lemma bootWith_one : (bootWith b r x).inode 1 = x := by
  simp [bootWith]

@[simp] lemma bootWith_setInode_zero :
    (bootWith b r x).setInode 0 f = bootWith b (f r) x := by
  unfold State.setInode
  rw [bootWith_zero]
  unfold bootWith
  congr 1
  funext j
  rcases j with _ | _ | j <;> rfl

@[simp] lemma bootWith_setInode_one :
    (bootWith b r x).setInode 1 f = bootWith b r (f x) := by
  unfold State.setInode
  rw [bootWith_one]
  unfold bootWith
  rw [upd_upd]

lemma run_iget_zero (hr : 0 < r.ref) (hd : r.dev = ROOTDEV) (hi : r.inum = i) :
    (iget ROOTDEV i).run (bootWith b r x) =
      .ok 0 (bootWith b { r with ref := r.ref + 1 } x) := by
  rw [run_iget_found (k := 0) (by decide) (by rwa [bootWith_zero]) (by rwa [bootWith_zero])
    (by rwa [bootWith_zero]) fun j hj => absurd hj (Nat.not_lt_zero j), bootWith_setInode_zero]

lemma run_iget_one (hr : 0 < r.ref) (hi : r.inum ≠ i) (hx : x.ref = 0) :
    (iget ROOTDEV i).run (bootWith b r x) = .ok 1 (bootWith b r (x.recycle ROOTDEV i)) := by
  rw [run_iget_new (k := 1) (fun j _ hrj _ => ?_) (by decide) (by rwa [bootWith_one])
    fun j hj => ?_, bootWith_setInode_one]
  · rcases j with _ | _ | j
    · rwa [bootWith_zero]
    · rw [bootWith_one, hx] at hrj
      exact absurd hrj (by decide)
    · exact absurd (show (0 : Int) < 0 from hrj) (by decide)
  · obtain rfl : j = 0 := by omega
    rw [bootWith_zero]
    exact ne_of_gt hr

lemma run_iunlockput_zero (hb : r.busy = true) (hr : 2 ≤ r.ref) :
    (iunlockput 0).run (bootWith b r x) =
      .ok () (bootWith b { r with busy := false, ref := r.ref - 1 } x) := by
  have hl : ({ r with busy := false } : Inode).lastUnlinked = false :=
    decide_eq_false fun h => absurd (show r.ref = 1 from h.1) (by omega)
  refine run_bind_ok (run_iunlock (by rw [bootWith_zero]; omega) (by rwa [bootWith_zero])) ?_
  rw [bootWith_setInode_zero, run_iput_keep (by rwa [bootWith_zero]), bootWith_setInode_zero]

/-- The first element of a path in the root directory. -/
lemma skipelem_slash {name : List Byte} (hne : name ≠ []) (hs : slash ∉ name) :
    skipelem (slash :: name) = some ([], name.take DIRSIZ) := by
  have hall : ∀ c ∈ name, decide (c ≠ slash) = true := fun c hc =>
    decide_eq_true fun h => hs (h ▸ hc)
  have h1 : (slash :: name).dropWhile (fun c => decide (c = slash)) = name := by
    obtain ⟨c, l, rfl⟩ := exists_cons_of_ne_nil hne
    have hc : ¬ c = slash := by simpa using hall c mem_cons_self
    rw [dropWhile_cons_of_pos (by simp), dropWhile_cons_of_neg (by simpa using hc)]
  have h2 : (name ++ []).takeWhile _ = name ++ [].takeWhile _ := takeWhile_append_of_pos hall
  have h3 : (name ++ []).dropWhile _ = [].dropWhile _ := dropWhile_append_of_pos hall
  rw [append_nil, takeWhile_nil, append_nil] at h2
  rw [append_nil, dropWhile_nil] at h3
  unfold skipelem
  rw [h1]
  cases name with
  | nil => exact absurd rfl hne
  | cons c l =>
    simp only [h2, h3]
    rfl

/-- Slot `k` of the cache can be locked, and then holds inode `i` of the disk. -/
structure Ready (sect : Nat → Bytes) (s : State) (k i : Nat) : Prop where
  sector : s.sector = sect
  disksize : s.disksize = (boot sect).disksize
  dev : (s.inode k).dev = ROOTDEV
  inum : (s.inode k).inum = i
  ref : 0 < (s.inode k).ref
  busy : (s.inode k).busy = false
  synced : (s.inode k).valid = true → (s.inode k).dinode = dinode sect i

/-- After `ilock` the entry holds the inode. -/
lemma Ready.run_ilock {s : State} {N : Node} (h : Ready sect s k i) (hN : NodeAt sect i N)
    (hd : (boot sect).disksize = FSSIZE) :
    ∃ s', (ilock k).run s = .ok () s' ∧ s'.sector = sect ∧ s'.disksize = FSSIZE ∧
      Loaded s' k i ∧ (s'.inode k).busy = true ∧ 0 < (s'.inode k).ref := by
  refine ⟨_, Xv6.run_ilock h.ref h.busy h.dev ?_ fun _ => ?_, h.sector, h.disksize.trans hd,
    ⟨?_, ?_⟩, ?_, ?_⟩
  · rw [h.inum, h.disksize, hd]
    exact hN.block
  · rw [h.sector, h.inum, hN.type]
    exact hN.used
  · rw [State.setInode_inode_same, locked_dev, h.dev]
  · rw [State.setInode_inode_same, State.setInode_sector, h.sector]
    unfold Inode.locked
    split_ifs with hv
    · exact h.synced hv
    · rw [h.inum]
      exact dinode_load ..
  · rw [State.setInode_inode_same, locked_busy]
  · rw [State.setInode_inode_same, locked_ref]
    exact h.ref

/-- The path "/" leads to the root directory. -/
lemma run_namei_slash (hb : Booted sect b) : ∃ s, (namei p [slash]).run b = .ok (some 0) s ∧
    Ready sect s 0 ROOTINO := by
  refine ⟨bootWith b { dev := ROOTDEV, inum := ROOTINO, ref := 2 } {}, ?_, ?_⟩
  · refine run_bind_ok (a := some (0, [])) ?_ rfl
    unfold namex
    rw [if_pos (by rfl), hb.eq_bootWith]
    exact run_bind_ok (run_iget_zero (by decide) rfl rfl) rfl
  · exact ⟨hb.sector, hb.disksize, rfl, rfl, by simp, by simp, fun hv => by simp at hv⟩

/-- `namei` finds the first entry of the root directory with the name. -/
lemma run_namei_entry {es : List (Nat × List Byte)} {N : Node} {name : List Byte}
    (hb : Booted sect b) (hN : NodeAt sect ROOTINO N) (hd : (boot sect).disksize = FSSIZE)
    (ht : N.type = T_DIR)
    (hes : N.data = dirents es) (hok : ∀ e ∈ es, e.1 ≠ 0 ∧ e.1 < 2 ^ 16 ∧ (0 : Byte) ∉ e.2)
    (hname : (0 : Byte) ∉ name) (hne : name ≠ []) (hs : slash ∉ name) (hm : m < es.length)
    (hmatch : name.take DIRSIZ = es[m].2.take DIRSIZ)
    (hfirst : ∀ j (hj : j < m), name.take DIRSIZ ≠ es[j].2.take DIRSIZ) :
    ∃ k s, (namei p (slash :: name)).run b = .ok (some k) s ∧ Ready sect s k es[m].1 := by
  obtain ⟨r, hr⟩ : ∃ r : Inode, r = ({ dev := ROOTDEV, inum := ROOTINO, ref := 2 } : Inode).locked
    sect := ⟨_, rfl⟩
  have hdev : r.dev = ROOTDEV := by rw [hr, locked_dev]
  have hinum : r.inum = ROOTINO := by rw [hr, locked_inum]
  have href : r.ref = 2 := by rw [hr, locked_ref]
  have hbusy : r.busy = true := by rw [hr, locked_busy]
  have hdisk : b.disksize = FSSIZE := hb.disksize.trans hd
  have hN' : NodeAt (bootWith b r {}).sector ROOTINO N := by
    rw [bootWith_sector, hb.sector]
    exact hN
  have hload : Loaded (bootWith b r {}) 0 ROOTINO := by
    refine ⟨by rwa [bootWith_zero], ?_⟩
    rw [bootWith_zero, hr, bootWith_sector, hb.sector]
    exact dinode_load ..
  have hlock : (ilock 0).run (bootWith b { dev := ROOTDEV, inum := ROOTINO, ref := 2 } {}) =
      .ok () (bootWith b r {}) := by
    rw [Xv6.run_ilock (by rw [bootWith_zero]; decide) (by rw [bootWith_zero])
      (by rw [bootWith_zero]) ?_ fun _ => ?_, bootWith_setInode_zero, bootWith_sector,
        hb.sector, hr]
    · rw [bootWith_zero, bootWith_disksize, hdisk]
      exact hN.block
    · rw [bootWith_zero, bootWith_sector, hb.sector, hN.type]
      exact hN.used
  have htake : ∀ l : List Byte, (l.take DIRSIZ).take DIRSIZ = l.take DIRSIZ := fun l => by
    rw [take_take, Nat.min_self]
  have hnul : (0 : Byte) ∉ name.take DIRSIZ := fun h => hname (mem_of_mem_take h)
  have hlook := hload.run_dirlookup hN' hdisk ht hes hok hnul hm
    ((htake _).trans hmatch) fun j hj => (htake name).symm ▸ hfirst j hj
  -- the search for the one element of the path
  have hrun : ∀ {k : Nat} {r' x : Inode}, r'.busy = true → 2 ≤ r'.ref →
      (iget ROOTDEV es[m].1).run (bootWith b r {}) = .ok k (bootWith b r' x) →
      (namei p (slash :: name)).run b =
        .ok (some k) (bootWith b { r' with busy := false, ref := r'.ref - 1 } x) := by
    intro k r' x hbusy' hr' hget
    refine run_bind_ok (a := some (k, name.take DIRSIZ)) ?_ rfl
    unfold namex
    rw [if_pos (by rfl), hb.eq_bootWith]
    refine run_bind_ok (run_iget_zero (by decide) rfl rfl) ?_
    rw [length_cons]
    unfold namexLoop
    rw [skipelem_slash hne hs]
    refine run_bind_ok hlock (run_bind_ok (run_read _) ?_)
    rw [if_neg (not_not.mpr ((hload.type hN').trans ht)), Bool.false_and, if_neg (by decide)]
    refine run_bind_ok (hlook.trans (run_bind_ok hget rfl))
      (run_bind_ok (run_iunlockput_zero hbusy' hr') rfl)
  by_cases hi : es[m].1 = ROOTINO
  · refine ⟨0, _, hrun ?_ ?_ (run_iget_zero (by omega) hdev (hinum.trans hi.symm)), ?_⟩
    · exact hbusy
    · change (2 : Int) ≤ r.ref + 1
      omega
    · refine ⟨hb.sector, hb.disksize, ?_, ?_, ?_, ?_, fun _ => ?_⟩
      · rw [bootWith_zero]
        exact hdev
      · rw [bootWith_zero]
        exact hinum.trans hi.symm
      · rw [bootWith_zero]
        change (0 : Int) < r.ref + 1 - 1
        omega
      · rw [bootWith_zero]
      · rw [bootWith_zero, hi]
        have := hload.dinode
        rw [bootWith_zero, bootWith_sector, hb.sector] at this
        exact this
  · refine ⟨1, _, hrun hbusy (by omega) (run_iget_one (by omega) (hinum ▸ Ne.symm hi) rfl), ?_⟩
    refine ⟨hb.sector, hb.disksize, ?_, ?_, ?_, ?_, fun hv => ?_⟩
    · rw [bootWith_one]
      rfl
    · rw [bootWith_one]
      rfl
    · rw [bootWith_one]
      exact Int.one_pos
    · rw [bootWith_one]
      rfl
    · rw [bootWith_one] at hv
      exact Bool.noConfusion hv

end Namei

/-! ### Host files -/

section HostFiles

variable {files : List HostFile} {f : HostFile} {img : Image} {p : Nat}

lemma mem_of_mem_imgName {c : Byte} (h : c ∈ f.imgName) : c ∈ f.name := by
  unfold HostFile.imgName at h
  split_ifs at h
  exacts [mem_of_mem_tail h, h]

lemma slash_not_mem_of_addFiles : ∀ {files : List HostFile} {img img' : Image},
    addFiles img files = some img' → ∀ f ∈ files, slash ∉ f.name := by
  intro files
  induction files with
  | nil => intro _ _ _ f hf; cases hf
  | cons g gs ih =>
    intro img img' h f hf
    obtain ⟨img1, ha, h⟩ := addFiles_cons h
    rcases mem_cons.mp hf with rfl | hf
    · exact (addFile_some ha).1
    · exact ih h f hf

lemma length_rootEntries : (rootEntries files).length = files.length + 2 := by
  simp [rootEntries]

lemma rootEntries_file {j : Nat} (hj : j < files.length)
    (hj' : j + 2 < (rootEntries files).length) :
    (rootEntries files)[j + 2] = (j + 2, files[j].imgName) := by
  simp [rootEntries, Nat.add_comm]

lemma rootEntries_ok (hlen : files.length + 2 ≤ INODEROOM)
    (hnul : ∀ f ∈ files, (0 : Byte) ∉ f.name) :
    ∀ e ∈ rootEntries files, e.1 ≠ 0 ∧ e.1 < 2 ^ 16 ∧ (0 : Byte) ∉ e.2 := by
  intro e he
  simp only [rootEntries, mem_cons, mem_map] at he
  rcases he with rfl | rfl | ⟨⟨f, n⟩, hf, rfl⟩
  · decide
  · decide
  · obtain ⟨h1, h2, h3⟩ := mem_zipIdx hf
    simp only [INODEROOM] at hlen
    refine ⟨by simp only; omega, by simp only; omega, fun h0 => ?_⟩
    exact hnul f (h3 ▸ getElem_mem _) (mem_of_mem_imgName h0)

lemma disksize_boot (h : main files = some img) (hlen : files.length + 2 ≤ INODEROOM) :
    (boot img.sect).disksize = FSSIZE := by
  obtain ⟨r, a, hr, ha, hu, rfl⟩ := main_eq h
  obtain ⟨hp, -, hcount, hmax, -⟩ := packed_files hr ha hu hlen
  rw [hcount]
  exact ((hp.fresh.winode (by decide)).volume hmax rfl).disksize

/-- The kernel finds the host file by its name, with its length and its bytes. -/
def ReadsBack (s : State) (p : Nat) (f : HostFile) : Prop :=
  ∃ k s1 s2, (namei p (slash :: f.imgName)).run s = .ok (some k) s1 ∧
    (ilock k).run s1 = .ok () s2 ∧ (s2.inode k).type = T_FILE ∧
    (s2.inode k).size = f.data.length ∧ ∀ off n, off < 2 ^ 32 → n < 2 ^ 32 →
      (readi p k off n).run s2 = .ok (arrayRead f.data off n) s2

/-- A name that leads to the root directory. -/
def NamesRoot (name : List Byte) : Prop := name = [] ∨ name = dot ∨ name = dotdot

/-- A file whose name leads to the root directory cannot be read. -/
lemma not_readsBack_of_namesRoot (h : main files = some img) (hlen : files.length + 2 ≤ INODEROOM)
    (hnul : ∀ f ∈ files, (0 : Byte) ∉ f.name) (hroot : NamesRoot f.imgName) :
    ¬ ReadsBack (boot img.sect) p f := by
  rintro ⟨k, s1, s2, hname, hlock, htype, -⟩
  obtain ⟨hN, -⟩ := nodeAt_main (i := ROOTINO) h hlen le_rfl (by simp only [ROOTINO]; omega)
  have hd := disksize_boot h hlen
  have hentry : ∀ m (hm : m < (rootEntries files).length), f.imgName ≠ [] → slash ∉ f.imgName →
      (0 : Byte) ∉ f.imgName → f.imgName = (rootEntries files)[m].2 →
      (rootEntries files)[m].1 = ROOTINO → (∀ j (hj : j < m), f.imgName.take DIRSIZ ≠
        (rootEntries files)[j].2.take DIRSIZ) →
      ∃ k s, (namei p (slash :: f.imgName)).run (boot img.sect) = .ok (some k) s ∧
        Ready img.sect s k ROOTINO := by
    intro m hm hne hs h0 heq hi hfirst
    have := run_namei_entry (p := p) booted_boot hN hd (congrArg Node.type root_node)
      (congrArg Node.data root_node) (rootEntries_ok hlen hnul) h0 hne hs hm (by rw [heq]) hfirst
    rwa [hi] at this
  have hready : ∃ k s, (namei p (slash :: f.imgName)).run (boot img.sect) = .ok (some k) s ∧
      Ready img.sect s k ROOTINO := by
    rcases hroot with h0 | h0 | h0
    · rw [h0]
      exact ⟨0, run_namei_slash booted_boot⟩
    · refine hentry 0 (by simp [length_rootEntries]) ?_ ?_ ?_ h0 rfl fun j hj => by omega
      all_goals
        rw [h0]
        decide
    · refine hentry 1 (by simp [length_rootEntries]) ?_ ?_ ?_ h0 rfl fun j hj => ?_
      · rw [h0]
        decide
      · rw [h0]
        decide
      · rw [h0]
        decide
      · obtain rfl : j = 0 := by omega
        rw [h0]
        change dotdot.take DIRSIZ ≠ dot.take DIRSIZ
        decide
  obtain ⟨k', s, hname', hr⟩ := hready
  obtain ⟨hk, rfl⟩ : some k' = some k ∧ s = s1 := by
    rw [hname'] at hname
    simpa using hname
  obtain rfl := Option.some.inj hk
  obtain ⟨s', hlock', hsect, -, hl, -⟩ := hr.run_ilock hN hd
  obtain rfl : s' = s2 := by
    rw [hlock'] at hlock
    simpa using hlock
  have := (hl.type (hsect ▸ hN)).symm.trans htype
  rw [congrArg Node.type root_node] at this
  exact absurd (show T_DIR = T_FILE from this) (by decide)

/-- Slot `k` of the cache is locked and holds a file with the contents `data`. -/
structure LockedFile (s : State) (k : Nat) (data : List Byte) : Prop where
  dev : (s.inode k).dev = ROOTDEV
  type : (s.inode k).type = T_FILE
  size : (s.inode k).size = data.length
  max : data.length < 2 ^ 31
  mapped : Mapped s k data.length
  byte : ∀ o < data.length, fileByte s k o = data.getD o 0
  busy : (s.inode k).busy = true
  ref : 0 < (s.inode k).ref
  nlink : (s.inode k).nlink ≠ 0

lemma LockedFile.run_readi {s : State} {k off n : Nat} {data : List Byte} (h : LockedFile s k data)
    (hoff : off < 2 ^ 32) (hn : n < 2 ^ 32) :
    (readi p k off n).run s = .ok (arrayRead data off n) s := by
  refine run_readi_array h.dev ?_ h.size h.max h.mapped h.byte hoff hn
  rw [h.type]
  decide

/-- A file with a name of its own can be opened. -/
lemma exists_lockedFile (h : main files = some img) (hlen : files.length + 2 ≤ INODEROOM)
    (hnul : ∀ f ∈ files, (0 : Byte) ∉ f.name)
    (hname : (files.map fun f => f.imgName.take DIRSIZ).Nodup)
    (hroot : ∀ f ∈ files, ¬ NamesRoot f.imgName) {j : Nat} (hj : j < files.length) {b : State}
    (hb : Booted img.sect b) :
    ∃ k s1 s2, (namei p (slash :: files[j].imgName)).run b = .ok (some k) s1 ∧
      (ilock k).run s1 = .ok () s2 ∧ LockedFile s2 k files[j].data := by
  have hmem : files[j] ∈ files := getElem_mem hj
  have hslash : slash ∉ files[j].imgName := fun hs => by
    obtain ⟨r, a, -, ha, -, -⟩ := main_eq h
    exact slash_not_mem_of_addFiles ha _ hmem (mem_of_mem_imgName hs)
  have hne : ∀ l, l = dot ∨ l = dotdot → files[j].imgName.take DIRSIZ ≠ l.take DIRSIZ := by
    intro l hl heq
    have hlt : (files[j].imgName.take DIRSIZ).length < DIRSIZ := by
      rw [heq]
      rcases hl with rfl | rfl <;> decide
    have hlong : files[j].imgName.length ≤ DIRSIZ := by
      rw [length_take] at hlt
      omega
    rw [take_of_length_le hlong] at heq
    refine hroot _ hmem ?_
    rcases hl with rfl | rfl
    exacts [.inr (.inl heq), .inr (.inr heq)]
  obtain ⟨hN, -⟩ := nodeAt_main (i := ROOTINO) h hlen le_rfl (by simp only [ROOTINO]; omega)
  obtain ⟨hF, hsize⟩ := nodeAt_main (i := 2 + j) h hlen (by omega) (by omega)
  have hd := disksize_boot h hlen
  rw [addNodes_file hj (by decide)] at hF hsize
  have hm : j + 2 < (rootEntries files).length := by
    rw [length_rootEntries]
    omega
  obtain ⟨k, s1, hrun, hready⟩ := run_namei_entry (p := p) (m := j + 2) hb hN hd
    (congrArg Node.type root_node) (congrArg Node.data root_node) (rootEntries_ok hlen hnul)
    (fun h0 => hnul _ hmem (mem_of_mem_imgName h0))
    (fun h0 => hroot _ hmem (.inl h0)) hslash hm (by rw [rootEntries_file hj hm]) fun i hi => by
      match i with
      | 0 => exact hne dot (.inl rfl)
      | 1 => exact hne dotdot (.inr rfl)
      | i + 2 =>
        rw [rootEntries_file (by omega) (by omega)]
        intro heq
        have hi' : i < (files.map fun f => f.imgName.take DIRSIZ).length := by
          rw [length_map]
          omega
        have hj' : j < (files.map fun f => f.imgName.take DIRSIZ).length := by
          rwa [length_map]
        have hget : (files.map fun f => f.imgName.take DIRSIZ)[j] =
            (files.map fun f => f.imgName.take DIRSIZ)[i] := by simpa using heq
        have := hname.getElem_inj_iff.mp hget
        omega
  rw [rootEntries_file hj hm, Nat.add_comm j 2] at hready
  obtain ⟨s2, hlock, hsect, hdisk, hl, hbusy, href⟩ := hready.run_ilock hF hd
  have hF' : NodeAt s2.sector (2 + j) ⟨T_FILE, 0, 0, 1, files[j].data⟩ := hsect ▸ hF
  have hsz : (s2.inode k).size = files[j].data.length := by
    rw [hl.size, hsect]
    exact hsize (by simp only [ROOTINO]; omega)
  obtain ⟨hmap, hbyte⟩ := hl.mapped hF' hdisk
  have hnlink : (s2.inode k).nlink = 1 := by
    have hsame : (s2.inode k).dinode.nlink = (dinode s2.sector (2 + j)).nlink := by rw [hl.dinode]
    exact hsame.trans hF'.nlink
  refine ⟨k, s1, s2, hrun, hlock, hl.dev, hl.type hF', hsz,
    hF'.length.trans_lt (by decide), hmap, hbyte,
    hbusy, href, ?_⟩
  rw [hnlink]
  decide

/-- A file with a name of its own is read back. -/
lemma readsBack_file (h : main files = some img) (hlen : files.length + 2 ≤ INODEROOM)
    (hnul : ∀ f ∈ files, (0 : Byte) ∉ f.name)
    (hname : (files.map fun f => f.imgName.take DIRSIZ).Nodup)
    (hroot : ∀ f ∈ files, ¬ NamesRoot f.imgName) {j : Nat} (hj : j < files.length) :
    ReadsBack (boot img.sect) p files[j] := by
  obtain ⟨k, s1, s2, hrun, hlock, ho⟩ :=
    exists_lockedFile (p := p) h hlen hnul hname hroot hj booted_boot
  exact ⟨k, s1, s2, hrun, hlock, ho.type, ho.size, fun _ _ hoff hn => ho.run_readi hoff hn⟩

/-- Where no assertion of `mkfs` fails, every host file is read back exactly if no file needs a
doubly indirect block and no name leads to the root directory. -/
theorem mkfs_reads_back_iff (hnul : ∀ f ∈ files, (0 : Byte) ∉ f.name)
    (hname : (files.map fun f => f.imgName.take DIRSIZ).Nodup) (hlen : files.length < ninodes)
    (hpack : main files = none → ∃ f ∈ files, SMALLFILE * BSIZE < f.data.length) :
    (∃ img, main files = some img ∧ ∀ f ∈ files, ReadsBack (boot img.sect) p f) ↔
      ∀ f ∈ files, f.data.length ≤ SMALLFILE * BSIZE ∧ ¬ NamesRoot f.imgName := by
  have hroom : files.length + 2 ≤ INODEROOM := by
    simp only [ninodes, INODEROOM] at *
    omega
  constructor
  · rintro ⟨img, himg, hback⟩ f hf
    refine ⟨?_, fun hroot => not_readsBack_of_namesRoot himg hroom hnul hroot (hback f hf)⟩
    obtain ⟨j, hj, rfl⟩ := getElem_of_mem hf
    have hF := (nodeAt_main (i := 2 + j) himg hroom (by omega) (by omega)).1
    rw [addNodes_file hj (by decide)] at hF
    exact hF.length
  · intro hok
    cases himg : main files with
    | none =>
      obtain ⟨f, hf, hlong⟩ := hpack himg
      exact absurd (hok f hf).1 (by omega)
    | some img =>
      refine ⟨img, rfl, fun f hf => ?_⟩
      obtain ⟨j, hj, rfl⟩ := getElem_of_mem hf
      exact readsBack_file himg hroom hnul hname (fun f hf => (hok f hf).2) hj

theorem mkfs_reads_back_iff_three_bytes :
    ∃ img, main [⟨[95, 97], [1, 2, 3]⟩] = some img ∧
      ∀ f ∈ [(⟨[95, 97], [1, 2, 3]⟩ : HostFile)], ReadsBack (boot img.sect) 0 f := by
  have hmain : (main [⟨[95, 97], [1, 2, 3]⟩]).isSome = true := by decide +kernel
  refine (mkfs_reads_back_iff (p := 0) ?_ ?_ (by decide) fun h => ?_).mpr ?_
  · simp
  · simp
  · rw [h] at hmain
    cases hmain
  · simp [NamesRoot, HostFile.imgName, dot, dotdot, SMALLFILE]

/-- A file of 140 blocks is within the bound of `mkfs` but runs past the array `indirect`, and a
file with the name "_" cannot be reached. -/
theorem mkfs_host_files_lost :
    (∃ f : HostFile, f.name = [97] ∧ f.data.length ≤ MAXFILE * BSIZE ∧ main [f] = none) ∧
      ∃ img, main [⟨[95], [1, 2, 3]⟩] = some img ∧
        ¬ ReadsBack (boot img.sect) 0 ⟨[95], [1, 2, 3]⟩ := by
  constructor
  · refine ⟨⟨[97], List.replicate (SMALLFILE * BSIZE + 1) 0⟩, rfl, ?_, ?_⟩
    · rw [length_replicate]
      decide
    · cases himg : main [⟨[97], List.replicate (SMALLFILE * BSIZE + 1) 0⟩] with
      | none => rfl
      | some img =>
        have hF := (nodeAt_main (i := 2 + 0) himg (by decide) (by decide) (by decide)).1
        rw [addNodes_file (by decide) (by decide)] at hF
        have hlen : (List.replicate (SMALLFILE * BSIZE + 1) (0 : Byte)).length ≤
          SMALLFILE * BSIZE := hF.length
        rw [length_replicate] at hlen
        omega
  · obtain ⟨img, himg⟩ : ∃ img, main [⟨[95], [1, 2, 3]⟩] = some img :=
      Option.isSome_iff_exists.mp (by decide +kernel)
    exact ⟨img, himg, not_readsBack_of_namesRoot himg (by decide) (by simp) (.inl rfl)⟩

end HostFiles

end Xv6
