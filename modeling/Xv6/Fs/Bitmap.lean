import Xv6.Fs.Layout
import Xv6.Fs.Bits
import Mathlib.Data.Finset.Card

/-!
# The bitmap of the disk: `balloc` and `bfree`

`used s b` is the bit of block `b`. `balloc` takes the first block whose bit is clear; `Took` and
`Freed` say what the two calls do to a disk on which the blocks before the data area are marked.
-/

namespace Xv6

open Lib Prog

/-! ### The bit of a block -/

/-- The first bitmap block. -/
def BITSTART : Nat := 28

/-- Block `c` is a bitmap block. -/
def IsBitmap (c : Nat) : Prop := BITSTART ≤ c ∧ c < DATASTART

/-- Block `b` is marked in use. -/
def used (sect : Nat → Bytes) (b : Nat) : Bool := bitSet (sect (BBLOCK b NINODES)) (b % BPB)

lemma BBLOCK_eq (b : Nat) : BBLOCK b NINODES = b / 4096 + BITSTART := by
  simp only [BBLOCK, NINODES, BITSTART, BPB, BSIZE, IPB, DINODESIZE, NDIRECT]

lemma isBitmap_BBLOCK {b : Nat} (hb : b < FSSIZE) : IsBitmap (BBLOCK b NINODES) := by
  rw [BBLOCK_eq]
  simp only [IsBitmap, FSSIZE, BITSTART, DATASTART] at *
  omega

lemma used_congr {sect sect' : Nat → Bytes} (h : ∀ c, IsBitmap c → sect' c = sect c) {b : Nat}
    (hb : b < FSSIZE) : used sect' b = used sect b := by
  unfold used
  rw [h _ (isBitmap_BBLOCK hb)]

/-- Storing a bitmap block that differs from the old one in the bit of `r` changes only the bit
of `r`. -/
lemma used_upd_bit {sect : Nat → Bytes} {r b : Nat} {bp : Bytes} {v : Bool}
    (hbp : ∀ j, bitSet bp j =
      if j = r % BPB then v else bitSet (sect (BBLOCK r NINODES)) j) :
    used (upd sect (BBLOCK r NINODES) bp) b = if b = r then v else used sect b := by
  exact marked_upd hbp

/-- The free blocks below the log area. -/
def freeBlocks (sect : Nat → Bytes) : Finset Nat :=
  (Finset.range LOGSTART).filter fun b => used sect b = false

lemma mem_freeBlocks {sect : Nat → Bytes} {b : Nat} :
    b ∈ freeBlocks sect ↔ b < LOGSTART ∧ used sect b = false := by
  simp [freeBlocks]

lemma freeBlocks_congr {sect sect' : Nat → Bytes}
    (h : ∀ c < FSSIZE, used sect' c = used sect c) : freeBlocks sect' = freeBlocks sect := by
  ext b
  rw [mem_freeBlocks, mem_freeBlocks]
  refine and_congr_right fun hb => ?_
  rw [h b (hb.trans (by decide))]

/-! ### A disk with its reserved blocks marked -/

/-- A disk with the layout of `mkfs` whose bitmap marks the blocks before the data area. -/
structure Volume (s : State) : Prop extends Layout s where
  reserved : ∀ b < DATASTART, used s.sector b = true

/-- The volume is a matter of the disk and the log alone. -/
lemma Volume.congr {s s' : State} (h : Volume s) (hd : s'.disksize = s.disksize)
    (hs : s'.sector = s.sector) (hl : s'.log.lh = s.log.lh) (hst : s'.log.start = s.log.start)
    (hsz : s'.log.size = s.log.size) : Volume s' :=
  ⟨⟨hd ▸ h.disksize, hst ▸ h.start, hsz ▸ h.logsize, hs ▸ h.size, hs ▸ h.ninodes, hl ▸ h.home,
    hl ▸ h.nodup, hl ▸ h.length, by rw [hl, hs]; exact h.slot⟩, hs ▸ h.reserved⟩

/-- What changed is on the disk: the tables in memory are those of `s`. -/
structure OnlyDisk (s s' : State) : Prop where
  disksize : s'.disksize = s.disksize
  inode : s'.inode = s.inode
  file : s'.file = s.file
  proc : s'.proc = s.proc
  input : s'.input = s.input
  busy : s'.log.busy = s.log.busy
  subset : s.log.lh ⊆ s'.log.lh

lemma OnlyDisk.trans {s s' s'' : State} (h : OnlyDisk s s') (h' : OnlyDisk s' s'') :
    OnlyDisk s s'' :=
  ⟨h'.disksize.trans h.disksize, h'.inode.trans h.inode, h'.file.trans h.file,
    h'.proc.trans h.proc, h'.input.trans h.input, h'.busy.trans h.busy,
    List.Subset.trans h.subset h'.subset⟩

lemma onlyDisk_logged (s : State) (b : Nat) (data : Bytes) : OnlyDisk s (s.logged b data) :=
  ⟨rfl, rfl, rfl, rfl, rfl, rfl, fun _ hc => mem_logged_lh.mpr (.inr hc)⟩

/-- Logging a block that is neither the super block nor a bitmap block. -/
lemma Volume.logged {s : State} (h : Volume s) {b : Nat} {data : Bytes} (hb : b < LOGSTART)
    (h1 : b ≠ 1) (hnb : ¬ IsBitmap b) (hlen : s.log.lh.length < LOGCAP) :
    Volume (s.logged b data) ∧
      ∀ c < FSSIZE, used (s.logged b data).sector c = used s.sector c := by
  have hused : ∀ c < FSSIZE, used (s.logged b data).sector c = used s.sector c := fun c hc => by
    refine used_congr (fun d hd => ?_) hc
    refine h.sector_logged_ne ?_ fun e => hnb (e ▸ hd)
    have := hd.2
    simp only [DATASTART, LOGSTART] at *
    omega
  refine ⟨⟨h.toLayout.logged hb h1 hlen, fun c hc => ?_⟩, hused⟩
  rw [hused c (hc.trans (by decide))]
  exact h.reserved c hc

/-! ### Transactions -/

section Trans

variable {s s' : State}

/-- `s'` has the tables of `s`, and its blocks below the log area. -/
structure SameFiles (s s' : State) : Prop where
  sector : ∀ c < LOGSTART, s'.sector c = s.sector c
  inode : s'.inode = s.inode
  file : s'.file = s.file
  proc : s'.proc = s.proc

lemma SameFiles.used_eq (h : SameFiles s s') {b : Nat} (hb : b < FSSIZE) :
    used s'.sector b = used s.sector b :=
  used_congr (fun c hc => h.sector c (hc.2.trans (by decide))) hb

lemma run_beginTrans (hb : s.log.busy = false) :
    beginTrans.run s = .ok () { s with log := { s.log with busy := true } } := by
  simp [beginTrans, run_act, hb]

/-- `begin_trans` waits until no transaction is active. -/
lemma beginTrans_ok (h : Volume s) (hr : beginTrans.run s = .ok () s') :
    Volume s' ∧ SameFiles s s' ∧ s'.log.busy = true ∧ s'.log.lh = s.log.lh ∧
      s.log.busy = false := by
  cases hb : s.log.busy with
  | true => simp [beginTrans, run_act, hb] at hr
  | false =>
    rw [run_beginTrans hb] at hr
    obtain ⟨-, rfl⟩ := Res.ok.inj hr
    exact ⟨h.congr rfl rfl rfl rfl rfl, ⟨fun _ _ => rfl, rfl, rfl, rfl⟩, rfl, rfl, rfl⟩

/-- `commit_trans` changes no file. -/
lemma commitTrans_ok (h : Volume s) : ∃ s', commitTrans.run s = .ok () s' ∧ Volume s' ∧
    SameFiles s s' ∧ s'.log.busy = false ∧ s'.log.lh = [] := by
  obtain ⟨hl, hlh, hsect, hin, hfile, hproc⟩ := h.toLayout.commit
  have hsame : SameFiles s { commit s with log := { (commit s).log with busy := false } } :=
    ⟨hsect, hin, hfile, hproc⟩
  refine ⟨_, rfl, Volume.congr (s := commit s) ⟨hl, fun b hb => ?_⟩ rfl rfl rfl rfl rfl, hsame, rfl,
    hlh⟩
  exact (hsame.used_eq (hb.trans (by decide))).trans (h.reserved b hb)

end Trans

/-! ### `balloc` -/

/-- The state after `balloc` has marked and zeroed block `r`. -/
def State.take (s : State) (r : Nat) : State :=
  let s := s.logged (BBLOCK r NINODES) (setBit (s.sector (BBLOCK r NINODES)) (r % BPB))
  s.logged r ((s.sector r).zero 0 BSIZE)

section Balloc

variable {s s' : State} {r b : Nat} {Q : Nat → State → Prop} {E : Option Panic → State → Prop}

lemma BBLOCK_lt (hb : b < FSSIZE) : BBLOCK b NINODES < LOGSTART :=
  (isBitmap_BBLOCK hb).2.trans (by decide)

lemma BBLOCK_ne_one (hb : b < FSSIZE) : BBLOCK b NINODES ≠ 1 := fun h => by
  have h1 : BITSTART ≤ 1 := h ▸ (isBitmap_BBLOCK hb).1
  exact absurd h1 (by decide)

/-- `balloc` takes the first free block of the disk. -/
lemma wp_balloc_first (h : Layout s)
    (hE : Room s 2 ∧ (∃ b < FSSIZE, used s.sector b = false) ∨ ∀ e s', E e s')
    (hQ : ∀ r < FSSIZE, used s.sector r = false → (∀ c < r, used s.sector c = true) →
      s.log.busy = true → s.log.lh.length < LOGCAP →
      (s.logged (BBLOCK r NINODES)
        (setBit (s.sector (BBLOCK r NINODES)) (r % BPB))).log.lh.length < LOGCAP → Q r (s.take r)) :
    (balloc ROOTDEV).wp Q E s := by
  have hn : ((getSuperblock (s.sector 1)).size + BPB - 1) / BPB = 10 := by rw [h.size]; rfl
  refine wp_readsb h ?_
  rw [hn]
  refine wp_ballocLoop_least (m := 0) ?_ ?_ ?_ ?_ ?_ ?_
  · intro c hc
    rw [h.size] at hc
    rw [h.ninodes, h.disksize]
    exact (BBLOCK_lt hc).trans (by decide)
  · rw [h.ninodes, h.size]
    intro hall
    rcases hE with ⟨-, b, hb, hfree⟩ | hE
    · exact absurd (hall b hb) (by rw [show marked NINODES s.sector b = false from hfree]; simp)
    · exact hE _ _
  · rw [h.ninodes, h.size]
    intro r hr hfree hleast
    refine wp_bind.mpr (wp_logWrite h ?_ fun hbusy hlen => ?_)
    · exact hE.imp_left fun hroom => hroom.1.mono (by omega)
    have h1 : Layout (s.logged (BBLOCK r NINODES)
        (setBit (s.sector (BBLOCK r NINODES)) (r % BPB))) :=
      h.logged (BBLOCK_lt hr) (BBLOCK_ne_one hr) hlen
    unfold bzero
    rw [bind_assoc]
    refine wp_bread h1 hr (wp_bind.mpr (wp_logWrite h1 ?_ fun _ hlen1 => ?_))
    · exact hE.imp_left fun hroom => hroom.1.logged
    · exact hQ r hr hfree hleast hbusy hlen hlen1
  · rw [h.size]
    decide
  · rw [h.size]
    decide
  · intro c hc
    simp at hc

/-- `s'` is `s` after `balloc` has taken data block `r`. -/
structure Took (s : State) (r : Nat) (s' : State) : Prop where
  disk : OnlyDisk s s'
  volume : Volume s'
  lo : DATASTART ≤ r
  hi : r < LOGSTART
  free : used s.sector r = false
  used_eq : ∀ b < FSSIZE, used s'.sector b = if b = r then true else used s.sector b
  zeroed : ∀ j < BSIZE, s'.sector r j = 0
  sector : ∀ c < LOGSTART, c ≠ r → ¬ IsBitmap c → s'.sector c = s.sector c
  length : s'.log.lh.length ≤ s.log.lh.length + 2
  mem : r ∈ s'.log.lh

/-- Changing the bit of `r` in the bitmap. -/
lemma Layout.used_logged_bit (h : Layout s) {bp : Bytes} {v : Bool}
    (hbp : ∀ j, bitSet bp j =
      if j = r % BPB then v else bitSet (s.sector (BBLOCK r NINODES)) j) (hb : b < FSSIZE) :
    used (s.logged (BBLOCK r NINODES) bp).sector b = if b = r then v else used s.sector b := by
  rw [← used_upd_bit hbp]
  refine used_congr (fun c hc => h.sector_logged ?_) hb
  exact hc.2.trans (by decide)

lemma Volume.took (h : Volume s) (hi : r < LOGSTART) (hfree : used s.sector r = false)
    (hlen : s.log.lh.length < LOGCAP)
    (hlen1 : (s.logged (BBLOCK r NINODES)
      (setBit (s.sector (BBLOCK r NINODES)) (r % BPB))).log.lh.length < LOGCAP) :
    Took s r (s.take r) := by
  have hr : r < FSSIZE := hi.trans (by decide)
  have hlo : DATASTART ≤ r := Nat.le_of_not_lt fun hlt => by
    rw [h.reserved r hlt] at hfree
    exact Bool.noConfusion hfree
  have hnb : ¬ IsBitmap r := fun hb => absurd hb.2 (Nat.not_lt.mpr hlo)
  have h1 : r ≠ 1 := fun e => absurd (e ▸ hlo) (by decide)
  unfold State.take
  set s1 := s.logged (BBLOCK r NINODES) (setBit (s.sector (BBLOCK r NINODES)) (r % BPB)) with hs1
  have hl1 : Layout s1 := h.toLayout.logged (BBLOCK_lt hr) (BBLOCK_ne_one hr) hlen
  have hu1 : ∀ b < FSSIZE, used s1.sector b = if b = r then true else used s.sector b :=
    fun b hb => h.toLayout.used_logged_bit (setBit_eq _ _) hb
  have hv1 : Volume s1 := ⟨hl1, fun b hb => by
    rw [hu1 b (hb.trans (by decide)), h.reserved b hb, ite_self]⟩
  obtain ⟨hv2, hu2⟩ : Volume (s1.logged r ((s1.sector r).zero 0 BSIZE)) ∧ _ :=
    hv1.logged hi h1 hnb hlen1
  refine ⟨(onlyDisk_logged ..).trans (onlyDisk_logged ..), hv2, hlo, hi, hfree, ?_, ?_, ?_, ?_, ?_⟩
  · intro b hb
    rw [hu2 b hb, hu1 b hb]
  · intro j hj
    rw [hl1.sector_logged_same hi]
    simp only [Bytes.zero]
    rw [if_pos (by omega)]
  · intro c hc hcr hcb
    rw [hl1.sector_logged_ne hc hcr]
    exact h.sector_logged_ne hc fun e => hcb (e ▸ isBitmap_BBLOCK hr)
  · have ha : s1.log.lh.length ≤ _ := logged_length_le
    exact logged_length_le.trans (Nat.add_le_add_right ha 1)
  · exact mem_logged_lh.mpr (.inl rfl)

/-- While a data block is free, `balloc` takes one. -/
lemma wp_balloc (h : Volume s) (hfree : (freeBlocks s.sector).Nonempty)
    (hE : Room s 2 ∨ ∀ e s', E e s') (hQ : ∀ r s', Took s r s' → s.log.busy = true → Q r s') :
    (balloc ROOTDEV).wp Q E s := by
  obtain ⟨b, hb⟩ := hfree
  obtain ⟨hb, hclear⟩ := mem_freeBlocks.mp hb
  refine wp_balloc_first h.toLayout
    (hE.imp_left fun hr => ⟨hr, b, hb.trans (by decide), hclear⟩) ?_
  intro r _ hr hleast hbusy hlen hlen1
  have hrb : r ≤ b := Nat.le_of_not_lt fun hlt => by
    rw [hleast b hlt] at hclear
    exact Bool.noConfusion hclear
  exact hQ r _ (h.took (hrb.trans_lt hb) hr hlen hlen1) hbusy

lemma Took.freeBlocks_eq (h : Took s r s') :
    freeBlocks s'.sector = (freeBlocks s.sector).erase r := by
  ext b
  simp only [Finset.mem_erase, mem_freeBlocks]
  constructor
  · rintro ⟨hb, hu⟩
    rw [h.used_eq b (hb.trans (by decide))] at hu
    split_ifs at hu with hbr
    exact ⟨hbr, hb, hu⟩
  · rintro ⟨hbr, hb, hu⟩
    refine ⟨hb, ?_⟩
    rw [h.used_eq b (hb.trans (by decide)), if_neg hbr, hu]

lemma Took.card_freeBlocks (h : Took s r s') :
    (freeBlocks s'.sector).card + 1 = (freeBlocks s.sector).card := by
  rw [h.freeBlocks_eq]
  exact Finset.card_erase_add_one (mem_freeBlocks.mpr ⟨h.hi, h.free⟩)

lemma Took.room (h : Took s r s') {n : Nat} (hr : Room s (n + 2)) : Room s' n := by
  refine ⟨h.disk.busy.trans hr.1, ?_⟩
  have h1 := h.length
  have h2 := hr.2
  omega

end Balloc

/-! ### `bfree` -/

section Bfree

variable {s s' : State} {b : Nat} {Q : Unit → State → Prop} {E : Option Panic → State → Prop}

/-- `s'` is `s` after `bfree` of data block `b`. -/
structure Freed (s : State) (b : Nat) (s' : State) : Prop where
  disk : OnlyDisk s s'
  volume : Volume s'
  used_eq : ∀ c < FSSIZE, used s'.sector c = if c = b then false else used s.sector c
  sector : ∀ c < LOGSTART, ¬ IsBitmap c → s'.sector c = s.sector c
  lh : s'.log.lh = if BBLOCK b NINODES ∈ s.log.lh then s.log.lh else s.log.lh ++ [BBLOCK b NINODES]

/-- `bfree` of a data block in use clears its bit, if the log has room. -/
lemma wp_bfree_used (h : Volume s) (hlo : DATASTART ≤ b) (hb : b < FSSIZE)
    (hu : used s.sector b = true) (hE : ¬ Room s 1 → Refused E s)
    (hQ : ∀ s', Freed s b s' → Room s 1 → Q () s') : (bfree ROOTDEV b).wp Q E s := by
  refine wp_readsb h.toLayout ?_
  rw [h.ninodes]
  refine wp_bread h.toLayout ((BBLOCK_lt hb).trans (by decide)) ?_
  have hbit : bitSet (s.sector (BBLOCK b NINODES)) (b % BPB) = true := hu
  rw [if_pos hbit]
  refine wp_logWrite_room h.toLayout hE fun hroom => ?_
  have hused : ∀ c < FSSIZE, used (s.logged (BBLOCK b NINODES)
      (clearBit (s.sector (BBLOCK b NINODES)) (b % BPB))).sector c =
        if c = b then false else used s.sector c :=
    fun c hc => h.toLayout.used_logged_bit (clearBit_eq _ _) hc
  refine hQ _ ⟨onlyDisk_logged .., ⟨?_, ?_⟩, hused, ?_, rfl⟩ hroom
  · exact h.toLayout.logged (BBLOCK_lt hb) (BBLOCK_ne_one hb) hroom.2
  · intro c hc
    rw [hused c (hc.trans (by decide)), if_neg (by omega), h.reserved c hc]
  · intro c hc hnb
    exact h.sector_logged_ne hc fun e => hnb (e ▸ isBitmap_BBLOCK hb)

/-- `bfree` of a data block clears its bit. -/
lemma wp_bfree (h : Volume s) (hlo : DATASTART ≤ b) (hb : b < FSSIZE)
    (hE : (Room s 1 ∧ used s.sector b = true) ∨ ∀ e s', E e s')
    (hQ : ∀ s', Freed s b s' → used s.sector b = true → s.log.busy = true → Q () s') :
    (bfree ROOTDEV b).wp Q E s := by
  by_cases hu : used s.sector b = true
  · refine wp_bfree_used h hlo hb hu (fun hno => ?_) fun s' hf hr => hQ s' hf hu hr.1
    rcases hE with ⟨hr, -⟩ | hE
    · exact absurd hr hno
    · exact ⟨hE _ _, hE _ _⟩
  · rcases hE with ⟨-, hE⟩ | hE
    · exact absurd hE hu
    · refine wp_readsb h.toLayout ?_
      rw [h.ninodes]
      refine wp_bread h.toLayout ((BBLOCK_lt hb).trans (by decide)) ?_
      have hbit : ¬ bitSet (s.sector (BBLOCK b NINODES)) (b % BPB) = true := hu
      rw [if_neg hbit, wp_panic]
      exact hE _ _

end Bfree

end Xv6
