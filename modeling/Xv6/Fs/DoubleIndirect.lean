import Xv6.Fs.ReadWrite

/-!
# The first block behind the indirect block

`bmap` keeps the doubly indirect block in `addrs[NDIRECT+1]`, one word past the array: the `dev`
field of the next entry of the inode cache. This is what `bmap` does with block `SMALLFILE` of a
file when that field is zero.
-/

namespace Xv6

open Lib Prog

lemma addrsSet_last (ic : Nat → Inode) (k v : Nat) :
    addrsSet ic k (NDIRECT + 1) v = upd ic (k + 1) { ic (k + 1) with dev := v } := by
  have h1 : (19 * k + 7 + 12) / 19 = k + 1 := by omega
  have h2 : (19 * k + 7 + 12) % 19 = 0 := by omega
  simp [addrsSet, INODEWORDS, ADDRSWORD, h1, h2, Inode.setWord]

/-! ### An entry of a fresh pointer block -/

/-- `s'` is `s` after the fresh block `r` has become entry 0 of the pointer block `b`. -/
structure Linked (s : State) (b r : Nat) (s' : State) : Prop where
  disk : OnlyDisk s s'
  volume : Volume s'
  free : used s.sector r = false
  data : Data s'.sector r
  zeroed : ∀ j < BSIZE, s'.sector r j = 0
  entry : (s'.sector b).le 0 4 = r
  used_mono : ∀ c < FSSIZE, used s.sector c = true → used s'.sector c = true
  sector : ∀ c < LOGSTART, used s.sector c = true → ¬ IsBitmap c → c ≠ b → s'.sector c = s.sector c
  card : (freeBlocks s'.sector).card + 1 = (freeBlocks s.sector).card
  length : s'.log.lh.length ≤ s.log.lh.length + 2
  mem : r ∈ s'.log.lh

section Linked

variable {s s' : State} {b r : Nat} {Q : Nat → State → Prop} {E : Option Panic → State → Prop}

lemma Took.linked (ht : Took s r s') (hb : Data s.sector b) (hmem : b ∈ s.log.lh)
    (hlen : s'.log.lh.length < LOGCAP) {bp : Bytes} :
    Linked s b r (s'.logged b (bp.putLe 0 4 r)) := by
  have hbr : b ≠ r := ht.ne hb.2.2
  have hb1 : b ≠ 1 := fun e => absurd hb.1 (by rw [e]; decide)
  have hmem' := ht.disk.subset hmem
  obtain ⟨hv, hused⟩ : Volume (s'.logged b (bp.putLe 0 4 r)) ∧ _ :=
    ht.volume.logged hb.2.1 hb1 hb.not_bitmap hlen
  have hr : r < FSSIZE := ht.hi.trans (by decide)
  refine ⟨ht.disk.trans (onlyDisk_logged ..), hv, ht.free, ⟨ht.lo, ht.hi, ?_⟩, fun j hj => ?_, ?_,
    fun c hc hu => ?_, fun c hc hu hnb hcb => ?_, ?_, ?_, ?_⟩
  · rw [hused r hr, ht.used_eq r hr, if_pos rfl]
  · rw [ht.volume.sector_logged_ne ht.hi hbr.symm]
    exact ht.zeroed j hj
  · rw [ht.volume.sector_logged_same hb.2.1, Bytes.le_putLe_same, Nat.mod_eq_of_lt]
    exact ht.hi.trans (by decide)
  · rw [hused c hc]
    exact ht.marks hc hu
  · rw [ht.volume.sector_logged_ne hc hcb]
    exact ht.sector c hc (ht.ne hu) hnb
  · rw [freeBlocks_congr hused]
    exact ht.card_freeBlocks
  · rw [logged_length_of_mem hmem']
    exact ht.length
  · exact mem_logged_lh.mpr (.inr ht.mem)

/-- The entry of a fresh pointer block that is in the log is allocated. -/
lemma wp_bmapEntry_fresh (h : Volume s) (hb : Data s.sector b)
    (hz : ∀ j < BSIZE, s.sector b j = 0) (hmem : b ∈ s.log.lh)
    (hfree : (freeBlocks s.sector).Nonempty) (hroom : Room s 3)
    (hQ : ∀ r s', Linked s b r s' → Q r s') : (bmapEntry ROOTDEV b 0).wp Q E s := by
  have h0 : (s.sector b).le (4 * 0) 4 = 0 := le_eq_zero fun j _ hj =>
    hz j (by simp only [BSIZE]; omega)
  unfold bmapEntry
  refine wp_bread h.toLayout (hb.2.1.trans (by decide)) ?_
  rw [wp_bmapTest, if_pos h0]
  refine wp_bind.mpr (wp_balloc h hfree (.inl (hroom.mono (by omega))) fun r s' ht _ => ?_)
  refine wp_bind.mpr (wp_logWrite ht.volume.toLayout (.inl (ht.room hroom)) fun _ hlen => ?_)
  rw [wp_pure]
  exact hQ r _ (ht.linked hb hmem hlen)

end Linked

/-! ### `bmap` -/

/-- Block `SMALLFILE` of the inode in slot `k` is block `b`, found through the doubly indirect block
`c` in the `dev` field of the next entry of the cache, and through `d`. -/
structure DoublePath (s : State) (k c d b : Nat) : Prop where
  dev : (s.inode (k + 1)).dev = c
  first : Data s.sector c
  second : Data s.sector d
  block : Data s.sector b
  entry : (s.sector c).le 0 4 = d
  leaf : (s.sector d).le 0 4 = b
  first_ne : c ≠ b
  second_ne : d ≠ b

/-- `s'` is `s` after `bmap` has allocated block `SMALLFILE` of the inode in slot `k` as block `b`,
with the doubly indirect block `c`. -/
structure Doubled (s : State) (k c b : Nat) (s' : State) : Prop where
  volume : Volume s'
  path : ∃ d, DoublePath s' k c d b
  inode : s'.inode = upd s.inode (k + 1) { s.inode (k + 1) with dev := c }
  busy : s'.log.busy = s.log.busy
  free : used s.sector b = false
  used_mono : ∀ c < FSSIZE, used s.sector c = true → used s'.sector c = true
  sector : ∀ c < LOGSTART, used s.sector c = true → ¬ IsBitmap c → s'.sector c = s.sector c
  card : (freeBlocks s'.sector).card + 3 = (freeBlocks s.sector).card
  length : s'.log.lh.length ≤ s.log.lh.length + 6
  mem : b ∈ s'.log.lh

section Double

variable {s s' : State} {k b c d x : Nat} {data : Bytes} {Q : Nat → State → Prop}
  {E : Option Panic → State → Prop}

/-- The doubly indirect lookup of block `SMALLFILE`. -/
lemma bmapFind_double (s : State) (k : Nat) : bmapFind s k SMALLFILE =
    ((nonzero (s.inode (k + 1)).dev).bind fun b => entryFind s b 0).bind fun b =>
      entryFind s b 0 := by
  unfold bmapFind
  rw [if_neg (by decide), if_neg (by decide), if_pos (by decide), addrsGet_last]
  rfl

lemma DoublePath.found (h : DoublePath s k c d b) (hv : Volume s) :
    bmapFind s k SMALLFILE = some b := by
  have hentry : ∀ {x y : Nat}, Data s.sector x → (s.sector x).le 0 4 = y → y ≠ 0 →
      entryFind s x 0 = some y := fun hx he hy => by
    unfold entryFind
    rw [if_pos (hv.disksize ▸ hx.lt_size)]
    exact nonzero_eq_some.mpr ⟨he, hy⟩
  rw [bmapFind_double, h.dev, nonzero_eq_some.mpr ⟨rfl, h.first.ne_zero⟩, Option.bind_some,
    hentry h.first h.entry h.second.ne_zero, Option.bind_some,
    hentry h.second h.leaf h.block.ne_zero]

/-- The path does not change with blocks that are not on it. -/
lemma DoublePath.logged (h : DoublePath s k c d b) (hv : Volume s) (hx : x < LOGSTART) (h1 : x ≠ 1)
    (hnb : ¬ IsBitmap x) (hc : x ≠ c) (hd : x ≠ d) (hlen : s.log.lh.length < LOGCAP) :
    DoublePath (s.logged x data) k c d b := by
  obtain ⟨-, hused⟩ : Volume (s.logged x data) ∧ _ := hv.logged hx h1 hnb hlen
  have hdata : ∀ {y}, Data s.sector y → Data (s.logged x data).sector y := fun hy =>
    ⟨hy.1, hy.2.1, (hused _ hy.lt_size).trans hy.2.2⟩
  refine ⟨h.dev, hdata h.first, hdata h.second, hdata h.block, ?_, ?_, h.first_ne, h.second_ne⟩
  · rw [hv.sector_logged_ne h.first.2.1 hc.symm]
    exact h.entry
  · rw [hv.sector_logged_ne h.second.2.1 hd.symm]
    exact h.leaf

/-- Allocation of block `SMALLFILE`. -/
lemma wp_bmap_double (h : Volume s) (hd : (s.inode k).dev = ROOTDEV)
    (h0 : (s.inode (k + 1)).dev = 0) (hfree : 3 ≤ (freeBlocks s.sector).card) (hroom : Room s 7)
    (hQ : ∀ c b s', Doubled s k c b s' → Q b s') : (bmap k SMALLFILE).wp Q E s := by
  unfold bmap
  rw [wp_read, if_neg (by decide), if_neg (by decide), if_pos (by decide), hd]
  unfold bmapAddr
  rw [wp_bind, wp_read, wp_read, wp_bmapTest, addrsGet_last, h0, if_pos rfl, hd]
  -- the doubly indirect block goes to the field of the next entry
  refine wp_bind.mpr (wp_balloc h (Finset.card_pos.mp (by omega))
    (.inl (hroom.mono (by omega))) fun c s1 ht _ => ?_)
  rw [wp_setAddr, wp_pure, addrsSet_last]
  set s2 : State := { s1 with
    inode := upd s1.inode (k + 1) { s1.inode (k + 1) with dev := c } } with hs2
  have hv2 : Volume s2 := ht.volume.congr rfl rfl rfl rfl rfl
  have hroom2 : Room s2 5 := ht.room hroom
  have hcard := ht.card_freeBlocks
  have hi2 : s2.inode = upd s.inode (k + 1) { s.inode (k + 1) with dev := c } := by
    rw [hs2, ← ht.disk.inode]
  refine wp_bind.mpr (wp_bmapEntry_fresh hv2 ht.data_new ht.zeroed ht.mem
    (Finset.card_pos.mp (by change 0 < (freeBlocks s1.sector).card; omega))
    (hroom2.mono (by omega)) fun d s3 hl => ?_)
  have hcard3 : (freeBlocks s3.sector).card + 1 = (freeBlocks s1.sector).card := hl.card
  have hroom3 : Room s3 3 := ⟨hl.disk.busy.trans hroom2.1, by
    have := hl.length
    have := hroom2.2
    omega⟩
  have hbn : (SMALLFILE - NDIRECT - NINDIRECT) % NINDIRECT = 0 := by decide
  rw [hbn]
  refine wp_bmapEntry_fresh hl.volume hl.data hl.zeroed hl.mem
    (Finset.card_pos.mp (by omega)) hroom3 fun b s4 hl' => hQ c b s4 ?_
  have hne : ∀ {x : Nat} {t : State}, used t.sector x = true → used t.sector b = false → x ≠ b :=
    fun h1 h2 e => Bool.noConfusion (h1.symm.trans (e ▸ h2))
  have hc3 : Data s3.sector c :=
    ⟨ht.lo, ht.hi, hl.used_mono c (ht.hi.trans (by decide)) ht.data_new.2.2⟩
  have hcd : c ≠ d := fun e => by
    have := hl.free
    rw [← e] at this
    exact Bool.noConfusion (ht.data_new.2.2.symm.trans this)
  have hd4 : Data s4.sector d :=
    ⟨hl.data.1, hl.data.2.1, hl'.used_mono d hl.data.lt_size hl.data.2.2⟩
  have hc4 : Data s4.sector c := ⟨ht.lo, ht.hi, hl'.used_mono c hc3.lt_size hc3.2.2⟩
  have hmono : ∀ x < FSSIZE, used s.sector x = true → used s3.sector x = true :=
    fun x hx hu => hl.used_mono x hx (ht.marks hx hu)
  have hi4 : s4.inode = upd s.inode (k + 1) { s.inode (k + 1) with dev := c } := by
    rw [hl'.disk.inode, hl.disk.inode, hi2]
  refine ⟨hl'.volume, ⟨d, ?_, hc4, hd4, hl'.data, ?_, hl'.entry, hne hc3.2.2 hl'.free,
    hne hl.data.2.2 hl'.free⟩, hi4, ?_, ?_, fun x hx hu => hl'.used_mono x hx (hmono x hx hu),
    fun x hx hu hnb => ?_, ?_, ?_, hl'.mem⟩
  · rw [hi4, upd_same]
  · rw [hl'.sector c ht.hi hc3.2.2 hc3.not_bitmap hcd]
    exact hl.entry
  · rw [hl'.disk.busy, hl.disk.busy]
    exact ht.disk.busy
  · by_contra hu
    have := hmono b hl'.data.lt_size (by simpa using hu)
    rw [hl'.free] at this
    exact Bool.noConfusion this
  · have hxd : x ≠ d := fun e => by
      have h1 := ht.marks (hx.trans (by decide)) hu
      have h2 : used s1.sector d = false := hl.free
      rw [e] at h1
      exact Bool.noConfusion (h1.symm.trans h2)
    have hxc : x ≠ c := ht.ne hu
    rw [hl'.sector x hx (hmono x (hx.trans (by decide)) hu) hnb hxd,
      hl.sector x hx (ht.marks (hx.trans (by decide)) hu) hnb hxc]
    exact ht.sector x hx hxc hnb
  · have := hl'.card
    omega
  · have h1 := ht.length
    have h2 : s3.log.lh.length ≤ s1.log.lh.length + 2 := hl.length
    have h3 := hl'.length
    omega

/-! ### `writei` -/

/-- `s'` is `s` after `writei` has written the first byte of block `SMALLFILE` of inode `i` in slot
`k`, which is block `b`. -/
structure WroteDouble (s : State) (k i c b : Nat) (s' : State) : Prop where
  volume : Volume s'
  path : ∃ d, DoublePath s' k c d b
  inode : s'.inode = upd (upd s.inode (k + 1) { s.inode (k + 1) with dev := c }) k
    { s.inode k with size := SMALLFILE * BSIZE + 1 }
  dinode_eq : dinode s'.sector i = { (s.inode k).dinode with size := SMALLFILE * BSIZE + 1 }
  busy : s'.log.busy = s.log.busy
  card : (freeBlocks s'.sector).card + 3 = (freeBlocks s.sector).card

/-- A write of one byte to block `SMALLFILE`. -/
lemma wp_writei_double {i : Nat} {x : Byte} {Q : Int → State → Prop} (h : FsOk s)
    (hc : Caches s k i) (ht : (s.inode k).type ≠ T_DEV)
    (hsize : (s.inode k).size = SMALLFILE * BSIZE) (h0 : (s.inode (k + 1)).dev = 0)
    (hfree : 3 ≤ (freeBlocks s.sector).card) (hroom : Room s 9)
    (hQ : ∀ c b s', WroteDouble s k i c b s' → Q 1 s') :
    (writei k (SMALLFILE * BSIZE) [x]).wp Q E s := by
  have hdev := h.dev k hc.lt hc.ref
  have hmod : (SMALLFILE * BSIZE + [x].length) % 2 ^ 32 = SMALLFILE * BSIZE + 1 := rfl
  have hk : k ≠ k + 1 := by omega
  have hdiv : SMALLFILE * BSIZE / BSIZE = SMALLFILE := by decide
  unfold writei
  rw [wp_read, if_neg ht, hmod, hsize, if_neg (by omega), if_neg (by decide)]
  change (writeiLoop k (SMALLFILE * BSIZE) [x] 1 >>= _).wp Q E s
  rw [writeiLoop, if_neg (by simp), hdiv]
  simp only [bind_assoc]
  rw [wp_read, hdev]
  refine wp_bind.mpr (wp_bmap_double h.volume hdev h0 hfree (hroom.mono (by omega))
    fun c b s1 hb => ?_)
  obtain ⟨d, hpath⟩ := hb.path
  have hblk := hpath.block
  have hb1 : b ≠ 1 := fun e => absurd hblk.1 (by rw [e]; decide)
  have hroom1 : Room s1 3 := ⟨hb.busy.trans hroom.1, by
    have := hb.length
    have := hroom.2
    omega⟩
  refine wp_bread hb.volume.toLayout hblk.lt_size (wp_bind.mpr (wp_logWrite hb.volume.toLayout
    (.inl (hroom1.mono (by omega))) fun _ hlen => ?_))
  generalize Bytes.splice _ _ _ = bytes
  set s2 := s1.logged b bytes with hs2
  obtain ⟨hv2, hused2⟩ : Volume s2 ∧ _ := hb.volume.logged hblk.2.1 hb1 hblk.not_bitmap hlen
  have hroom2 : Room s2 2 := hroom1.logged
  have hpath2 : DoublePath s2 k c d b := hpath.logged hb.volume hblk.2.1 hb1 hblk.not_bitmap
    hpath.first_ne.symm hpath.second_ne.symm hlen
  have hk2 : s2.inode k = s.inode k := by
    rw [hs2, logged_inode, hb.inode, upd_ne hk]
  rw [writeiLoop, pure_bind, wp_read, hk2, hsize, K.when_pos (by simp), bind_assoc, wp_write]
  obtain ⟨s3, hs3⟩ : ∃ s3, s3 = s2.setInode k fun ip =>
      { ip with size := SMALLFILE * BSIZE + [x].length } := ⟨_, rfl⟩
  rw [← hs3]
  have hv3 : Volume s3 := by
    rw [hs3]
    exact hv2.congr rfl rfl rfl rfl rfl
  have hsect3 : s3.sector = s2.sector := by rw [hs3]; rfl
  have hlog3 : s3.log = s2.log := by rw [hs3]; rfl
  have hin3 : s3.inode = upd (upd s.inode (k + 1) { s.inode (k + 1) with dev := c }) k
      { s.inode k with size := SMALLFILE * BSIZE + 1 } := by
    rw [hs3]
    change upd s2.inode k _ = _
    rw [hk2, hs2, logged_inode, hb.inode]
    rfl
  have hk3 : s3.inode k = { s.inode k with size := SMALLFILE * BSIZE + 1 } := by
    rw [hin3, upd_same]
  have hpath3 : DoublePath s3 k c d b := by
    refine ⟨?_, hsect3 ▸ hpath2.first, hsect3 ▸ hpath2.second, hsect3 ▸ hpath2.block,
      hsect3 ▸ hpath2.entry, hsect3 ▸ hpath2.leaf, hpath2.first_ne, hpath2.second_ne⟩
    rw [hin3, upd_ne hk.symm, upd_same]
  unfold iupdate
  obtain ⟨hi1, hi⟩ := h.inum k hc.lt hc.ref
  rw [hc.inum] at hi hi1
  have hibl := IBLOCK_lt hi
  have hilt : IBLOCK i < LOGSTART := hibl.trans (by decide)
  have hi_ne : IBLOCK i ≠ 1 := by rw [IBLOCK_eq]; omega
  have hinb : ¬ IsBitmap (IBLOCK i) := fun hnb => absurd hnb.1 (Nat.not_le.mpr hibl)
  have hidata : ∀ {y : Nat} {sect : Nat → Bytes}, Data sect y → IBLOCK i ≠ y := fun hy e =>
    absurd hy.1 (Nat.not_le.mpr (e ▸ hibl.trans (by decide)))
  rw [bind_assoc, wp_read, hk3, hdev, hc.inum]
  simp only [bind_assoc]
  refine wp_bread hv3.toLayout (hibl.trans (by decide)) (wp_bind.mpr (wp_logWrite hv3.toLayout
    (.inl ⟨by rw [hlog3]; exact hroom2.1, by rw [hlog3]; have := hroom2.2; omega⟩)
    fun _ hlen3 => ?_))
  rw [wp_pure]
  refine hQ c b _ ⟨(hv3.logged hilt hi_ne hinb hlen3).1, ⟨d, hpath3.logged hv3 hilt hi_ne hinb
    (hidata hpath3.first) (hidata hpath3.second) hlen3⟩, hin3, ?_, ?_, ?_⟩
  · have hfits : ({ s.inode k with size := SMALLFILE * BSIZE + 1 } : Inode).Fits :=
      ⟨(by decide : SMALLFILE * BSIZE + 1 < 2 ^ 32), ((h.tree hc).fits (h.pending hc).size).2⟩
    refine (dinode_congr (hv3.toLayout.sector_logged hilt)).trans ?_
    rw [dinode_upd_putDinode hfits, if_pos rfl]
    rfl
  · change s3.log.busy = _
    rw [hlog3]
    exact hb.busy
  · rw [freeBlocks_congr (hv3.logged hilt hi_ne hinb hlen3).2, hsect3, freeBlocks_congr hused2]
    exact hb.card

end Double

end Xv6
