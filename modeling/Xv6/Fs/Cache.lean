import Xv6.Fs.ReadWrite

/-!
# The inode cache: `iget`, `idup`, `ilock`, `iunlock` and `iput`

These calls change entries of the cache but not the disk, except for the `iput` that frees an
inode. `FsOk` is kept by each of them.
-/

namespace Xv6

open Lib Prog

section Slots

variable {s : State} {k : Nat} {f : Inode → Inode}

/-- What the entry of a slot must be for the cache to be consistent with the disk: if it is in
use then it is the only one of its inode, and if it is valid then it agrees with the disk. -/
structure SlotOk (s : State) (k : Nat) (ip : Inode) : Prop where
  dev : ip.dev = ROOTDEV
  inum : 1 ≤ ip.inum ∧ ip.inum < NINODES
  uniq : ∀ j < NINODE, j ≠ k → 0 < (s.inode j).ref → (s.inode j).inum ≠ ip.inum
  synced : ip.valid = true → live s.sector ip.inum = true ∧ ip.dinode = dinode s.sector ip.inum

lemma FsOk.slotOk (h : FsOk s) (hk : k < NINODE) (hr : 0 < (s.inode k).ref) :
    SlotOk s k (s.inode k) :=
  ⟨h.dev k hk hr, h.inum k hk hr, fun j hj hjk hrj he => hjk (h.uniq j k hj hk hrj hr he),
    fun hv => h.synced k _ ⟨hk, hr, rfl, hv⟩⟩

/-- Consistency when only the entry of slot `k` has changed. -/
lemma FsOk.setInode (h : FsOk s) (hf : 0 < (f (s.inode k)).ref → SlotOk s k (f (s.inode k))) :
    FsOk (s.setInode k f) := by
  have hk : (s.setInode k f).inode k = f (s.inode k) := State.setInode_inode_same ..
  have hne : ∀ j, j ≠ k → (s.setInode k f).inode j = s.inode j := fun j hj =>
    State.setInode_inode_ne _ _ hj
  have hslot : ∀ j < NINODE, 0 < ((s.setInode k f).inode j).ref →
      SlotOk (s.setInode k f) j ((s.setInode k f).inode j) := fun j hj hr => by
    by_cases hjk : j = k
    · subst hjk
      rw [hk] at hr ⊢
      refine ⟨(hf hr).dev, (hf hr).inum, fun i hi hij hri => ?_, (hf hr).synced⟩
      rw [hne i hij] at hri ⊢
      exact (hf hr).uniq i hi hij hri
    · rw [hne j hjk] at hr ⊢
      have hold := h.slotOk hj hr
      refine ⟨hold.dev, hold.inum, fun i hi hij hri => ?_, hold.synced⟩
      by_cases hik : i = k
      · subst hik
        rw [hk] at hri ⊢
        exact ((hf hri).uniq j hj hjk hr).symm
      · rw [hne i hik] at hri ⊢
        exact hold.uniq i hi hij hri
  refine ⟨h.volume.congr rfl rfl rfl rfl rfl, h.ptrs, h.size, h.mapped,
    fun j hj hr => (hslot j hj hr).dev, fun j hj hr => (hslot j hj hr).inum, fun j i hc => ?_,
    fun j j' hj hj' hr hr' he => ?_⟩
  · have := (hslot j hc.lt hc.ref).synced hc.valid
    rwa [hc.inum] at this
  · by_contra hjj
    exact (hslot j' hj' hr').uniq j hj hjj hr he

end Slots

/-! ### `iget` and `idup` -/

/-- The entry `iget` makes of a free one. -/
def Inode.recycle (ip : Inode) (dev inum : Nat) : Inode :=
  { ip with dev := dev, inum := inum, ref := 1, busy := false, valid := false }

section Iget

variable {s : State} {dev i k : Nat} {Q : Nat → State → Prop} {E : Option Panic → State → Prop}

/-- `iget` finds the entry of the inode, or recycles a free one. -/
lemma wp_iget (hE : (∃ k < NINODE, (s.inode k).ref = 0) ∨ ∀ e s', E e s')
    (hfound : ∀ k < NINODE, 0 < (s.inode k).ref → (s.inode k).dev = dev → (s.inode k).inum = i →
      Q k (s.setInode k fun ip => { ip with ref := ip.ref + 1 }))
    (hnew : ∀ k < NINODE, (s.inode k).ref = 0 →
      (∀ j < NINODE, 0 < (s.inode j).ref → (s.inode j).dev = dev → (s.inode j).inum ≠ i) →
      Q k (s.setInode k fun ip => ip.recycle dev i)) : (iget dev i).wp Q E s := by
  rw [iget, wp_act, if_pos rfl]
  unfold igetSlot
  cases hf : findFrom (fun k => decide (0 < (s.inode k).ref ∧ (s.inode k).dev = dev ∧
      (s.inode k).inum = i)) 0 NINODE with
  | some k =>
    obtain ⟨-, hk, hp, -⟩ := findFrom_some hf
    obtain ⟨h1, h2, h3⟩ := of_decide_eq_true hp
    exact hfound k (by omega) h1 h2 h3
  | none =>
    have hnone : ∀ j < NINODE, 0 < (s.inode j).ref → (s.inode j).dev = dev →
        (s.inode j).inum ≠ i := fun j hj h1 h2 h3 =>
      absurd ⟨h1, h2, h3⟩ (of_decide_eq_false (findFrom_none hf j (Nat.zero_le j) (by omega)))
    cases he : findFrom (fun k => decide ((s.inode k).ref = 0)) 0 NINODE with
    | some k =>
      obtain ⟨-, hk, hp, -⟩ := findFrom_some he
      exact hnew k (by omega) (of_decide_eq_true hp) hnone
    | none =>
      rcases hE with ⟨k, hk, h0⟩ | hE
      · exact absurd h0 (of_decide_eq_false (findFrom_none he k (Nat.zero_le k) (by omega)))
      · exact hE _ _

/-- `iget` of an inode whose entry is found first in slot `k`. -/
lemma run_iget_found (hk : k < NINODE) (hr : 0 < (s.inode k).ref) (hd : (s.inode k).dev = dev)
    (hi : (s.inode k).inum = i)
    (hmin : ∀ j < k, ¬(0 < (s.inode j).ref ∧ (s.inode j).dev = dev ∧ (s.inode j).inum = i)) :
    (iget dev i).run s = .ok k (s.setInode k fun ip => { ip with ref := ip.ref + 1 }) := by
  have hfind : (igetSlot s.inode dev i).1 = some k :=
    findFrom_eq_some hk (decide_eq_true ⟨hr, hd, hi⟩) fun j hj => decide_eq_false (hmin j hj)
  obtain ⟨⟨a, b⟩, hab⟩ : ∃ q, igetSlot s.inode dev i = q := ⟨_, rfl⟩
  rw [hab] at hfind
  obtain rfl : a = some k := hfind
  simp [iget, run_act, hab]

/-- `iget` of an inode that is not cached takes the first free slot. -/
lemma run_iget_new
    (hnone : ∀ j < NINODE, 0 < (s.inode j).ref → (s.inode j).dev = dev → (s.inode j).inum ≠ i)
    (hk : k < NINODE) (h0 : (s.inode k).ref = 0) (hmin : ∀ j < k, (s.inode j).ref ≠ 0) :
    (iget dev i).run s = .ok k (s.setInode k fun ip => ip.recycle dev i) := by
  have hslot : igetSlot s.inode dev i = (none, some k) := by
    unfold igetSlot
    congr 1
    · cases hf : findFrom _ 0 NINODE with
      | none => rfl
      | some j =>
        obtain ⟨-, hj, hp, -⟩ := findFrom_some hf
        obtain ⟨h1, h2, h3⟩ := of_decide_eq_true hp
        exact absurd h3 (hnone j (by omega) h1 h2)
    · exact findFrom_eq_some hk (decide_eq_true h0) fun j hj => decide_eq_false (hmin j hj)
  simp [iget, run_act, hslot, Inode.recycle]

lemma FsOk.recycle (h : FsOk s) (h1 : 1 ≤ i) (hi : i < NINODES)
    (hnone : ∀ j < NINODE, 0 < (s.inode j).ref → (s.inode j).dev = ROOTDEV → (s.inode j).inum ≠ i) :
    FsOk (s.setInode k fun ip => ip.recycle ROOTDEV i) :=
  h.setInode fun _ => ⟨rfl, ⟨h1, hi⟩, fun j hj _ hr => hnone j hj hr (h.dev j hj hr),
    fun hv => Bool.noConfusion hv⟩

/-- One more reference to an entry in use. -/
lemma FsOk.ref_succ (h : FsOk s) (hk : k < NINODE) (hr : 0 < (s.inode k).ref) :
    FsOk (s.setInode k fun ip => { ip with ref := ip.ref + 1 }) :=
  have hs := h.slotOk hk hr
  h.setInode fun _ => ⟨hs.dev, hs.inum, hs.uniq, hs.synced⟩

/-- One reference less. -/
lemma FsOk.ref_pred (h : FsOk s) (hk : k < NINODE) :
    FsOk (s.setInode k fun ip => { ip with ref := ip.ref - 1 }) :=
  h.setInode fun hr =>
    have hr : 0 < (s.inode k).ref - 1 := hr
    have hs := h.slotOk hk (by omega)
    ⟨hs.dev, hs.inum, hs.uniq, hs.synced⟩

end Iget

/-! ### `ilock` and `iunlock` -/

section Lock

variable {s : State} {i k : Nat} {β : Type} {g : Unit → K β} {Q : β → State → Prop}
  {E : Option Panic → State → Prop}

lemma dinode_load (ip : Inode) (sect : Nat → Bytes) (i : Nat) :
    (ip.load (getDinode (sect (IBLOCK i)) (i % IPB))).dinode = dinode sect i := by
  unfold Inode.load Inode.dinode dinode
  simp only [Dinode.mk.injEq, true_and]
  refine cutAddrs_congr fun p hp => ?_
  exact if_pos (Nat.lt_succ_of_le hp)

/-- The entry after `ilock`: busy, and loaded from the disk if it was not valid. -/
def Inode.locked (ip : Inode) (sect : Nat → Bytes) : Inode :=
  if ip.valid then { ip with busy := true }
  else ({ ip with busy := true } : Inode).load
    (getDinode (sect (IBLOCK ip.inum)) (ip.inum % IPB))

@[simp] lemma locked_dev (ip : Inode) (sect : Nat → Bytes) : (ip.locked sect).dev = ip.dev := by
  unfold Inode.locked
  split_ifs <;> rfl

@[simp] lemma locked_inum (ip : Inode) (sect : Nat → Bytes) :
    (ip.locked sect).inum = ip.inum := by
  unfold Inode.locked
  split_ifs <;> rfl

@[simp] lemma locked_ref (ip : Inode) (sect : Nat → Bytes) : (ip.locked sect).ref = ip.ref := by
  unfold Inode.locked
  split_ifs <;> rfl

@[simp] lemma locked_busy (ip : Inode) (sect : Nat → Bytes) : (ip.locked sect).busy = true := by
  unfold Inode.locked
  split_ifs <;> rfl

@[simp] lemma locked_valid (ip : Inode) (sect : Nat → Bytes) : (ip.locked sect).valid = true := by
  unfold Inode.locked
  split_ifs with h
  exacts [h, rfl]

/-- Locking an entry whose inode is allocated keeps consistency. -/
lemma FsOk.lock (h : FsOk s) (hk : k < NINODE) (hr : 0 < (s.inode k).ref)
    (hl : (s.inode k).valid = false → live s.sector (s.inode k).inum = true) :
    FsOk (s.setInode k fun ip => ip.locked s.sector) ∧
      Caches (s.setInode k fun ip => ip.locked s.sector) k (s.inode k).inum := by
  have hs := h.slotOk hk hr
  refine ⟨h.setInode fun _ => ⟨?_, ?_, ?_, fun _ => ?_⟩, hk, ?_, ?_, ?_⟩
  · rw [locked_dev, hs.dev]
  · rw [locked_inum]
    exact hs.inum
  · rw [locked_inum]
    exact hs.uniq
  · rw [locked_inum]
    unfold Inode.locked
    split_ifs with hv
    · exact hs.synced hv
    · exact ⟨hl (by simpa using hv), dinode_load _ _ _⟩
  · rw [State.setInode_inode_same, locked_ref]
    exact hr
  · rw [State.setInode_inode_same, locked_inum]
  · rw [State.setInode_inode_same, locked_valid]

/-- Unlocking an entry keeps consistency. -/
lemma FsOk.unlock (h : FsOk s) (hk : k < NINODE) :
    FsOk (s.setInode k fun ip => { ip with busy := false }) :=
  h.setInode fun hr =>
    have hs := h.slotOk hk hr
    ⟨hs.dev, hs.inum, hs.uniq, hs.synced⟩

/-- `ilock` locks the entry and loads it if necessary; it stops when the entry is locked, or when
the inode is free. -/
lemma wp_ilock (h : FsOk s) (hk : k < NINODE) (hr : 0 < (s.inode k).ref)
    (hE : ((s.inode k).busy = false ∧
      ((s.inode k).valid = false → live s.sector (s.inode k).inum = true)) ∨ ∀ e s', E e s')
    (hQ : (s.inode k).busy = false →
      ((s.inode k).valid = false → live s.sector (s.inode k).inum = true) →
      (g ()).wp Q E (s.setInode k fun ip => ip.locked s.sector)) : (ilock k >>= g).wp Q E s := by
  have hr1 : ¬ (s.inode k).ref < 1 := by omega
  unfold ilock
  simp only [bind_assoc]
  rw [wp_read, if_neg hr1, bind_assoc, wp_bind, wp_act]
  cases hb : (s.inode k).busy with
  | true =>
    rw [if_neg (by simp)]
    rcases hE with ⟨hE, -⟩ | hE
    · rw [hb] at hE
      exact Bool.noConfusion hE
    · exact hE _ _
  | false =>
    rw [if_pos (by simp), wp_ret, bind_assoc, wp_read]
    have hkk : (s.setInode k fun ip => { ip with busy := true }).inode k =
        { s.inode k with busy := true } := State.setInode_inode_same ..
    rw [hkk]
    cases hv : (s.inode k).valid with
    | true =>
      rw [K.when_neg (by simp), pure_bind]
      have := hQ hb (fun hf => absurd hf (by simp [hv]))
      simpa only [State.setInode, Inode.locked, hv, if_true] using this
    | false =>
      obtain ⟨h1, h2⟩ := h.inum k hk hr
      obtain ⟨s1, hs1⟩ : ∃ s1, s1 = s.setInode k fun ip => { ip with busy := true } := ⟨_, rfl⟩
      have hsect : s1.sector = s.sector := by rw [hs1]; rfl
      have hlay : Layout s1 := by
        rw [hs1]
        exact ⟨h.volume.disksize, h.volume.start, h.volume.logsize, h.volume.size,
          h.volume.ninodes, h.volume.home, h.volume.nodup, h.volume.length, h.volume.slot⟩
      rw [← hs1]
      rw [K.when_pos rfl]
      simp only [bind_assoc]
      rw [h.dev k hk hr]
      refine wp_bread hlay ((IBLOCK_lt h2).trans (by decide)) ?_
      rw [wp_write, hsect]
      by_cases ht : (getDinode (s.sector (IBLOCK (s.inode k).inum))
        ((s.inode k).inum % IPB)).type = 0
      · rw [K.when_pos ht]
        rcases hE with ⟨-, hE⟩ | hE
        · exact absurd ht (live_iff.mp (hE hv)).2.2
        · exact hE _ _
      · rw [K.when_neg ht, pure_bind]
        have := hQ hb fun _ => live_iff.mpr ⟨h1, h2, ht⟩
        have heq : (s.setInode k fun ip => ip.locked s.sector) = s1.setInode k fun ip =>
            ip.load (getDinode (s.sector (IBLOCK (s.inode k).inum)) ((s.inode k).inum % IPB)) := by
          rw [hs1]
          unfold State.setInode
          simp only [upd_upd, upd_same, Inode.locked, hv, Bool.false_eq_true, if_false]
        rwa [heq] at this

/-- `ilock` of an entry that nobody has locked, for an inode that is not free. -/
lemma run_ilock (hr : 0 < (s.inode k).ref) (hb : (s.inode k).busy = false)
    (hd : (s.inode k).dev = ROOTDEV) (hlt : IBLOCK (s.inode k).inum < s.disksize)
    (ht : (s.inode k).valid = false → (dinode s.sector (s.inode k).inum).type ≠ 0) :
    (ilock k).run s = .ok () (s.setInode k fun ip => ip.locked s.sector) := by
  cases hv : (s.inode k).valid with
  | true =>
    rw [run_ilock_valid hr hb hv]
    simp only [State.setInode, Inode.locked, hv, if_true]
  | false =>
    have hr' : ¬ (s.inode k).ref < 1 := by omega
    have ht : (getDinode (s.sector (IBLOCK (s.inode k).inum)) ((s.inode k).inum % IPB)).type ≠ 0 :=
      ht hv
    refine run_bind_ok (run_read _) ?_
    rw [if_neg hr']
    have hbusy : (.act .tau (fun s => !(s.inode k).busy)
        (fun s => s.setInode k fun ip => { ip with busy := true }) fun _ => .ret () :
          K Unit).run s =
        .ok () (s.setInode k fun ip => { ip with busy := true }) := by
      simp [run_act, hb]
    refine run_bind_ok hbusy (run_bind_ok (run_read _) ?_)
    · rw [State.setInode_inode_same, K.when_pos (by exact hv)]
      refine run_bind_ok (run_bread hd hlt) (run_bind_ok (run_modify _ _ _) ?_)
      rw [K.when_neg (by exact ht)]
      simp only [State.setInode, Inode.locked, hv, upd_upd, upd_same, Bool.false_eq_true, if_false,
        run_pure]

/-- `ilock` of an entry that nobody has locked, for an allocated inode. -/
lemma FsOk.run_ilock (h : FsOk s) (hk : k < NINODE) (hr : 0 < (s.inode k).ref)
    (hb : (s.inode k).busy = false)
    (hl : (s.inode k).valid = false → live s.sector (s.inode k).inum = true) :
    (ilock k).run s = .ok () (s.setInode k fun ip => ip.locked s.sector) :=
  Xv6.run_ilock hr hb (h.dev k hk hr)
    (h.volume.disksize ▸ (IBLOCK_lt (h.inum k hk hr).2).trans (by decide))
    fun hv => (live_iff.mp (hl hv)).2.2

/-- `iunlock` unlocks the entry. -/
lemma wp_iunlock (hE : ((s.inode k).busy = true ∧ 0 < (s.inode k).ref) ∨ ∀ e s', E e s')
    (hQ : (s.inode k).busy = true → 0 < (s.inode k).ref →
      (g ()).wp Q E (s.setInode k fun ip => { ip with busy := false })) :
    (iunlock k >>= g).wp Q E s := by
  unfold iunlock
  rw [bind_assoc, wp_read]
  by_cases hc : (s.inode k).busy = true ∧ 0 < (s.inode k).ref
  · rw [if_neg (by simpa using ⟨hc.1, by omega⟩), wp_write]
    exact hQ hc.1 hc.2
  · rw [if_pos (by by_contra hn; simp at hn; exact hc ⟨hn.1, by omega⟩)]
    rcases hE with hE | hE
    exacts [absurd hE hc, hE _ _]

end Lock

end Xv6
