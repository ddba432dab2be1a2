import Xv6.Fs.Independence

/-!
# Eviction from the inode cache

A file is written, its inode leaves the cache, the slots are used for other inodes, and the inode is
loaded again from the disk. A file within the direct and the indirect blocks is as it was, since
the disk inode has all of its addresses. The address of the doubly indirect block is in no inode.
-/

namespace Xv6

open Lib Prog

/-- One call between the writes to inode `i` and its return to the cache. -/
inductive CacheStep (i : Nat) : State → State → Prop
  | beginTrans {s s' : State} (hr : Xv6.beginTrans.run s = .ok () s') : CacheStep i s s'
  | commitTrans {s s' : State} (hr : Xv6.commitTrans.run s = .ok () s') : CacheStep i s s'
  | iget {s s' : State} {j k : Nat} (h1 : 1 ≤ j) (hj : j < NINODES)
      (hr : (Xv6.iget ROOTDEV j).run s = .ok k s') : CacheStep i s s'
  | idup {s s' : State} {k r : Nat} (hk : k < NINODE) (href : 0 < (s.inode k).ref)
      (hr : (Xv6.idup k).run s = .ok r s') : CacheStep i s s'
  | ilock {s s' : State} {k : Nat} (hk : k < NINODE) (href : 0 < (s.inode k).ref)
      (hr : (Xv6.ilock k).run s = .ok () s') : CacheStep i s s'
  | iunlock {s s' : State} {k : Nat} (hk : k < NINODE) (hr : (Xv6.iunlock k).run s = .ok () s') :
      CacheStep i s s'
  | iput {s s' : State} {k : Nat} (hk : k < NINODE) (hl : (s.inode k).lastUnlinked = false)
      (hr : (Xv6.iput k).run s = .ok () s') : CacheStep i s s'
  | writei {s s' : State} {j k off : Nat} {src : List Byte} {r : Int} (hc : Caches s k j)
      (hj : j ≠ i) (ht : (s.inode k).type ≠ T_DEV) (ha : Admits s k off src.length)
      (hs : SmallWrite off src.length) (hr : (Xv6.writei k off src).run s = .ok r s') :
      CacheStep i s s'

/-- Inode `i` of the disk is as it was in `s1`, with the same blocks. -/
structure Kept (i : Nat) (s1 s : State) : Prop where
  ok : FsOk s
  node : node s.sector i = node s1.sector i
  blocks : ∀ p, ptr s.sector (diskAddrs s.sector i) p = ptr s1.sector (diskAddrs s1.sector i) p

section Kept

variable {i : Nat} {s1 s s' : State}

/-- Only the cache has changed. -/
lemma Kept.cache (h : Kept i s1 s) (hok : FsOk s') (hs : s'.sector = s.sector) : Kept i s1 s' :=
  ⟨hok, by rw [hs]; exact h.node, by rw [hs]; exact h.blocks⟩

/-- Only the log has changed. -/
lemma Kept.sameFiles (h : Kept i s1 s) (hv : Volume s') (hs : SameFiles s s') : Kept i s1 s' := by
  obtain ⟨hok, hnode⟩ := h.ok.sameFiles hv hs
  refine ⟨hok, hnode ▸ h.node, fun p => ?_⟩
  rw [hs.diskAddrs_eq, h.ok.ptr_sameFiles hs]
  exact h.blocks p

lemma Kept.step (h : Kept i s1 s) (hs : CacheStep i s s') : Kept i s1 s' := by
  cases hs with
  | beginTrans hr =>
    obtain ⟨hv, hsame, -⟩ := beginTrans_ok h.ok.volume hr
    exact h.sameFiles hv hsame
  | commitTrans hr =>
    obtain ⟨t, hr', hv, hsame, -⟩ := commitTrans_ok h.ok.volume
    obtain ⟨-, rfl⟩ := Res.ok.inj (hr'.symm.trans hr)
    exact h.sameFiles hv hsame
  | iget h1 hj hr =>
    refine wp_ok (Q := fun _ s' => Kept i s1 s') (E := fun _ _ => True) ?_ hr
    exact wp_iget (.inr fun _ _ => trivial)
      (fun k hk href _ _ => h.cache (h.ok.ref_succ hk href) rfl)
      fun k _ _ hnone => h.cache (h.ok.recycle h1 hj hnone) rfl
  | idup hk href hr =>
    obtain ⟨-, rfl⟩ := Res.ok.inj hr
    exact h.cache (h.ok.ref_succ hk href) rfl
  | ilock hk href hr =>
    refine wp_ok (Q := fun _ s' => Kept i s1 s') (E := fun _ _ => True) ?_ hr
    rw [← bind_pure (ilock _)]
    exact wp_ilock h.ok hk href (.inr fun _ _ => trivial) fun _ hl =>
      h.cache (h.ok.lock hk href hl).1 rfl
  | iunlock hk hr =>
    refine wp_ok (Q := fun _ s' => Kept i s1 s') (E := fun _ _ => True) ?_ hr
    rw [← bind_pure (iunlock _)]
    exact wp_iunlock (.inr fun _ _ => trivial) fun _ _ => h.cache (h.ok.unlock hk) rfl
  | iput hk hl hr =>
    obtain ⟨-, rfl⟩ := Res.ok.inj ((run_iput_keep hl).symm.trans hr)
    exact h.cache (h.ok.ref_pred hk) rfl
  | writei hc hj ht ha hs hr =>
    have hw := (h.ok.writei_ok hc ht ha hs hr).2
    refine ⟨hw.ok, ?_, fun p => (hw.other i hj.symm p).trans (h.blocks p)⟩
    rw [hw.node_eq, upd_ne hj.symm]
    exact h.node

lemma Kept.run (h : Kept i s1 s) (hrun : Relation.ReflTransGen (CacheStep i) s s') :
    Kept i s1 s' := by
  induction hrun with
  | refl => exact h
  | tail _ hs ih => exact ih.step hs

end Kept

/-- Slot `k'` in state `s'` shows the file that slot `k` shows in state `s`: `bmap` finds the same
blocks and allocates none, and `readi` returns the same bytes. -/
structure SameFile (s : State) (k : Nat) (s' : State) (k' : Nat) : Prop where
  size : (s'.inode k').size = (s.inode k).size
  bmap : ∀ bn, bn * BSIZE < (s.inode k).size →
    ∃ b, (bmap k bn).run s = .ok b s ∧ (Xv6.bmap k' bn).run s' = .ok b s'
  readi : ∀ p off n, off < 2 ^ 32 → n < 2 ^ 32 →
    ∃ r, (readi p k off n).run s = .ok r s ∧ (Xv6.readi p k' off n).run s' = .ok r s'

section Same

variable {i k k' : Nat} {s s' : State}

lemma Kept.sameFile (h : Kept i s s') (hok : FsOk s) (hc : Caches s k i) (hc' : Caches s' k' i)
    (ht : (s.inode k).type ≠ T_DEV) : SameFile s k s' k' := by
  have hsize : (s'.inode k').size = (s.inode k).size := by
    rw [← hok.length_data hc, ← h.ok.length_data hc', h.node]
  have ht' : (s'.inode k').type ≠ T_DEV := by
    have h1 := h.ok.node_eq hc'
    have h2 := hok.node_eq hc
    rw [h.node, h2] at h1
    exact (show (s.inode k).type = (s'.inode k').type from congrArg Node.type h1) ▸ ht
  refine ⟨hsize, fun bn hbn => ?_, fun p off n hoff hn => ?_⟩
  · obtain ⟨a, ha, -, haddr⟩ := hok.bmapFind hc hbn
    obtain ⟨b, hb, -, hbddr⟩ := h.ok.bmapFind hc' (hsize ▸ hbn)
    have hab : b = a := by
      rw [haddr, hbddr, ← diskAddrs_of_live (hok.synced k i hc).1,
        ← diskAddrs_of_live (h.ok.synced k' i hc').1]
      exact h.blocks _
    exact ⟨a, run_bmap (hok.dev k hc.lt hc.ref) ha,
      run_bmap (h.ok.dev k' hc'.lt hc'.ref) (hab ▸ hb)⟩
  · refine ⟨_, hok.run_readi hc ht hoff hn, ?_⟩
    rw [← h.node]
    exact h.ok.run_readi hc' ht' hoff hn

lemma Kept.live (h : Kept i s s') (hl : live s.sector i = true) :
    live s'.sector i = true := by
  cases hl' : Xv6.live s'.sector i with
  | true => rfl
  | false =>
    have := h.node
    rw [node_of_free hl', node_of_live hl] at this
    exact absurd (congrArg Node.type this).symm (live_iff.mp hl).2.2

end Same

/-- A file whose writes all stay within the direct and the indirect blocks survives the eviction of
its inode, whatever the cache is used for before the inode is loaded again. -/
theorem contents_survive_eviction {S : Nat → Prop} {s0 s1 s2 s3 : State} {f : Nat → List Byte}
    {k k' i : Nat} (h0 : FsOk s0) (hS : ∀ k, S k → ∃ i, Caches s0 k i)
    (ht : ∀ k, S k → (s0.inode k).type ≠ T_DEV) (hk : S k) (hi : (s0.inode k).inum = i)
    (hwrites : Relation.ReflTransGen (FileStep SmallWrite S) (s0, contents s0) (s1, f))
    (hevict : Relation.ReflTransGen (CacheStep i) s1 s2)
    (hget : (iget ROOTDEV i).run s2 = .ok k' s3) (hfree : (s3.inode k').busy = false) :
    ∃ s4, (ilock k').run s3 = .ok () s4 ∧ SameFile s1 k s4 k' := by
  have hheld := (h0.held hS ht).run hwrites
  have hc := hheld.caches k hk
  rw [hi] at hc
  have hlive := (hheld.ok.synced k i hc).1
  obtain ⟨h1, hi', -⟩ := live_iff.mp hlive
  have hkept : Kept i s1 s3 :=
    (Kept.run ⟨hheld.ok, rfl, fun _ => rfl⟩ hevict).step (.iget h1 hi' hget)
  obtain ⟨hk', href, hinum⟩ : k' < NINODE ∧ 0 < (s3.inode k').ref ∧ (s3.inode k').inum = i := by
    refine wp_ok (Q := fun k s => k < NINODE ∧ 0 < (s.inode k).ref ∧ (s.inode k).inum = i)
      (E := fun _ _ => True) (wp_iget (.inr fun _ _ => trivial) (fun k hk hr _ hi => ?_)
        fun k hk _ _ => ?_) hget
    · rw [State.setInode_inode_same]
      exact ⟨hk, by simp only; omega, hi⟩
    · rw [State.setInode_inode_same]
      exact ⟨hk, Int.one_pos, rfl⟩
  have hl : (s3.inode k').valid = false → live s3.sector (s3.inode k').inum = true := fun _ =>
    hinum.symm ▸ hkept.live hlive
  obtain ⟨hok4, hc4⟩ := hkept.ok.lock hk' href hl
  rw [hinum] at hc4
  exact ⟨_, hkept.ok.run_ilock hk' href hfree hl,
    (hkept.cache hok4 rfl).sameFile hheld.ok hc hc4 (hheld.type k hk)⟩

/-! ### The slots around a file -/

/-- The cache holds the root directory in slot 0 and inode 2, locked, in slot 1. -/
structure OnlyFile (s : State) : Prop where
  root : s.inode 0 = { dev := ROOTDEV, inum := ROOTINO, ref := 1 }
  inum : (s.inode 1).inum = 2
  ref : (s.inode 1).ref = 1
  busy : (s.inode 1).busy = true
  nlink : (s.inode 1).nlink = 1
  free : ∀ j, 2 ≤ j → (s.inode j).ref = 0

/-- The file is put back and another inode takes its slot. The file then gets the next slot. -/
lemma OnlyFile.evict {s : State} (h : OnlyFile s) : ∃ s2,
    Relation.ReflTransGen (CacheStep 2) s s2 ∧ s2.sector = s.sector ∧ s2.disksize = s.disksize ∧
    s2.log = s.log ∧ (∀ j, 2 ≤ j → s2.inode j = s.inode j) ∧
    (iget ROOTDEV 2).run s2 = .ok 2 (s2.setInode 2 fun ip => ip.recycle ROOTDEV 2) := by
  have href := h.ref
  have hr1 := run_iunlock (k := 1) (by omega) h.busy
  set s1 := s.setInode 1 fun ip => { ip with busy := false } with hs1
  have hl : (s1.inode 1).lastUnlinked = false := by
    rw [hs1, State.setInode_inode_same]
    exact decide_eq_false fun hl => absurd (h.nlink.symm.trans hl.2.2) (by decide)
  have hr2 := run_iput_keep hl
  set s2 := s1.setInode 1 fun ip => { ip with ref := ip.ref - 1 } with hs2
  have hother : ∀ j, j ≠ 1 → s2.inode j = s.inode j := fun j hj => by
    rw [hs2, State.setInode_inode_ne _ _ hj, hs1, State.setInode_inode_ne _ _ hj]
  have href2 : (s2.inode 1).ref = 0 := by
    rw [hs2, State.setInode_inode_same, hs1, State.setInode_inode_same]
    simp only
    omega
  have hnone : ∀ t : State, (∀ j, j ≠ 1 → t.inode j = s.inode j) →
      ∀ j, j ≠ 1 → 0 < (t.inode j).ref → (t.inode j).inum = ROOTINO := fun t ht j hj hr => by
    rw [ht j hj] at hr ⊢
    rcases Nat.lt_or_ge j 2 with hlt | hge
    · obtain rfl : j = 0 := by omega
      rw [h.root]
    · rw [h.free j hge] at hr
      exact absurd hr (by decide)
  have hroot : ∀ t : State, (∀ j, j ≠ 1 → t.inode j = s.inode j) → (t.inode 0).ref ≠ 0 :=
    fun t ht => by
    rw [ht 0 (by decide), h.root]
    decide
  have hr3 : (iget ROOTDEV 3).run s2 = .ok 1 (s2.setInode 1 fun ip => ip.recycle ROOTDEV 3) := by
    refine run_iget_new (fun j _ hr _ he => ?_) (by decide) href2 fun j hj => ?_
    · by_cases hj : j = 1
      · rw [hj, href2] at hr
        exact absurd hr (by decide)
      · exact absurd ((hnone s2 hother j hj hr).symm.trans he) (by decide)
    · obtain rfl : j = 0 := by omega
      exact hroot s2 hother
  set s3 := s2.setInode 1 fun ip => ip.recycle ROOTDEV 3 with hs3
  have hother3 : ∀ j, j ≠ 1 → s3.inode j = s.inode j := fun j hj => by
    rw [hs3, State.setInode_inode_ne _ _ hj]
    exact hother j hj
  have hslot3 : s3.inode 1 = (s2.inode 1).recycle ROOTDEV 3 := State.setInode_inode_same ..
  refine ⟨s3, .tail (.tail (.tail .refl (.iunlock (by decide) hr1)) (.iput (by decide) hl hr2))
    (.iget (by decide) (by decide) hr3), rfl, rfl, rfl, fun j hj => hother3 j (by omega), ?_⟩
  refine run_iget_new (fun j _ hr _ he => ?_) (by decide) ?_ fun j hj => ?_
  · by_cases hj : j = 1
    · rw [hj, hslot3] at he
      exact absurd (show 3 = 2 from he) (by decide)
    · exact absurd ((hnone s3 hother3 j hj hr).symm.trans he) (by decide)
  · rw [hother3 2 (by decide)]
    exact h.free 2 le_rfl
  · rcases Nat.lt_or_ge j 1 with hlt | hge
    · obtain rfl : j = 0 := by omega
      exact hroot s3 hother3
    · obtain rfl : j = 1 := by omega
      rw [hslot3]
      exact Int.one_ne_zero

lemma busy_of_ilock {s s' : State} {k : Nat} (hr : (ilock k).run s = .ok () s') :
    (s'.inode k).busy = true := by
  refine wp_ok (Q := fun _ s' => (s'.inode k).busy = true) (E := fun _ _ => True) ?_ hr
  unfold ilock
  rw [wp_read]
  split_ifs with href
  · trivial
  rw [wp_bind, wp_act]
  split_ifs with hb
  · rw [wp_ret, wp_read, State.setInode_inode_same]
    by_cases hv : (s.inode k).valid = false
    · rw [K.when_pos (by exact hv)]
      unfold bread
      rw [wp_bind, wp_act, if_pos rfl]
      split_ifs
      · trivial
      · trivial
      · rw [wp_ret, wp_write]
        unfold K.when
        split_ifs
        · trivial
        · rw [wp_pure, State.setInode_inode_same, id_eq, State.setInode_inode_same]
          rfl
    · rw [K.when_neg (by exact hv)]
      exact congrArg Inode.busy (State.setInode_inode_same ..)

/-- The cache after writes to the opened file. -/
lemma Opened.onlyFile {img : Mkfs.Image} {s0 s : State} (ho : Opened img s0)
    (hzero : s.inode 0 = s0.inode 0)
    (hslot : ∃ n a, s.inode 1 = { s0.inode 1 with size := n, addrs := a })
    (hfree : ∀ j, 2 ≤ j → (s.inode j).ref = (s0.inode j).ref) : OnlyFile s := by
  obtain ⟨s1, -, hlock⟩ := ho.opened
  obtain ⟨n, a, hslot⟩ := hslot
  refine ⟨?_, ?_, ?_, ?_, ?_, fun j hj => ?_⟩
  · rw [hzero, ho.other 0 (by decide)]
    rfl
  · rw [hslot]
    exact ho.caches.inum
  · rw [hslot]
    exact ho.ref
  · rw [hslot]
    exact busy_of_ilock hlock
  · rw [hslot]
    exact ho.nlink
  · rw [hfree j hj, ho.other j (by omega), boot_inode_ne (by omega)]

/-- A file of one block, evicted and loaded into another slot. -/
theorem contents_survive_eviction_one_block : ∃ img s0 s1 f s2 s3 s4, Opened img s0 ∧
    Relation.ReflTransGen (FileStep SmallWrite (· = 1)) (s0, contents s0) (s1, f) ∧
    (s1.inode 1).size = BSIZE ∧ Relation.ReflTransGen (CacheStep 2) s1 s2 ∧
    (iget ROOTDEV 2).run s2 = .ok 2 s3 ∧ (ilock 2).run s3 = .ok () s4 ∧ SameFile s1 1 s4 2 := by
  obtain ⟨img, s0, ho⟩ := exists_opened
  have ht : (s0.inode 1).type ≠ T_DEV := by rw [ho.type]; decide
  have hcard := ho.card
  obtain ⟨s1, f, hrun, hg⟩ := ho.grown.fill SmallWrite (f := contents s0) (m := 1)
    ho.caches ht (le_trans (by decide) hcard) (fun _ _ h => h) (by decide)
  have honly : OnlyFile s1 := by
    refine ho.onlyFile ?_ ⟨_, _, hg.slot⟩ fun j hj => ?_
    · rw [hg.inode, upd_ne (by decide)]
    · rw [hg.inode, upd_ne (by omega)]
  obtain ⟨s2, hevict, -, -, -, hsame, hget⟩ := honly.evict
  obtain ⟨s4, hlock, hfile⟩ := contents_survive_eviction (S := (· = 1)) (k := 1) ho.grown.ok
    (by rintro k rfl; exact ⟨2, ho.caches⟩) (by rintro k rfl; exact ht) rfl ho.caches.inum hrun
    hevict hget (congrArg Inode.busy (State.setInode_inode_same ..))
  refine ⟨img, s0, s1, f, s2, _, s4, ho, hrun, ?_, hevict, hget, hlock, hfile⟩
  rw [hg.slot]
  exact Nat.one_mul _

/-- A file with one byte in its block `SMALLFILE`, evicted and loaded into another slot: `bmap` does
not find the block and allocates another one. -/
theorem eviction_loses_block : ∃ img s0 s1 f s2 s3 s4 s5 s6 b b', Opened img s0 ∧
    Relation.ReflTransGen (FileStep (fun _ _ => True) (· = 1)) (s0, contents s0) (s1, f) ∧
    SMALLFILE * BSIZE < (s1.inode 1).size ∧ Relation.ReflTransGen (CacheStep 2) s1 s2 ∧
    (iget ROOTDEV 2).run s2 = .ok 2 s3 ∧ (ilock 2).run s3 = .ok () s4 ∧
    beginTrans.run s4 = .ok () s5 ∧ (bmap 1 SMALLFILE).run s1 = .ok b s1 ∧
    (bmap 2 SMALLFILE).run s5 = .ok b' s6 ∧ b' ≠ b := by
  obtain ⟨img, s0, ho⟩ := exists_opened
  obtain ⟨s, f, s', c, b, hrun, hadm, hcard, hr, hw, hinode⟩ := ho.double
  obtain ⟨d, hpath⟩ := hw.path
  obtain ⟨s1, hr1, hv1, hsame1, hb1, hlh1⟩ := commitTrans_ok hw.volume
  have hin1 : s1.inode = s'.inode := hsame1.inode
  have hslot1 : s1.inode 1 = { s0.inode 1 with
      size := SMALLFILE * BSIZE + 1, addrs := (s.inode 1).addrs } := by
    rw [hin1, hw.inode, upd_same]
    conv_lhs => rw [hinode, upd_same]
  have hold : ∀ j, 1 < j → s.inode j = {} := fun j hj => by
    rw [hinode, upd_ne (by omega), ho.other j (by omega), boot_inode_ne (by omega)]
  have hnew : ∀ j, 2 < j → s1.inode j = {} := fun j hj => by
    rw [hin1, hw.inode, upd_ne (by omega), upd_ne (by omega)]
    exact hold j (by omega)
  have honly : OnlyFile s1 := by
    refine ho.onlyFile ?_ ⟨_, _, hslot1⟩ fun j hj => ?_
    · rw [hin1, hw.inode, upd_ne (by decide), upd_ne (by decide), hinode,
        upd_ne (by decide)]
    · rw [ho.other j (by omega), boot_inode_ne (by omega)]
      rcases Nat.eq_or_lt_of_le hj with rfl | hj
      · rw [hin1, hw.inode, upd_ne (by decide), upd_same]
        change (s.inode 2).ref = 0
        rw [hold 2 (by decide)]
      · rw [hnew j hj]
  have hdata : ∀ {x}, Data s'.sector x → Data s1.sector x := fun hx =>
    ⟨hx.1, hx.2.1, (hsame1.used_eq hx.lt_size).trans hx.2.2⟩
  have hpath1 : DoublePath s1 1 c d b := by
    refine ⟨hin1 ▸ hpath.dev, hdata hpath.first, hdata hpath.second, hdata hpath.block, ?_, ?_,
      hpath.first_ne, hpath.second_ne⟩
    · rw [hsame1.sector c hpath.first.2.1]
      exact hpath.entry
    · rw [hsame1.sector d hpath.second.2.1]
      exact hpath.leaf
  have hdev1 : (s1.inode 1).dev = ROOTDEV := by
    rw [hslot1]
    exact ho.grown.ok.dev 1 (by decide) ho.caches.ref
  obtain ⟨s2, hevict, hsect2, hdisk2, hlog2, hkeep2, hget⟩ := honly.evict
  set s3 := s2.setInode 2 fun ip => ip.recycle ROOTDEV 2 with hs3
  have hslot3 : s3.inode 2 = (s2.inode 2).recycle ROOTDEV 2 := State.setInode_inode_same ..
  have hlock : (ilock 2).run s3 = .ok () (s3.setInode 2 fun ip => ip.locked s3.sector) := by
    refine run_ilock ?_ ?_ ?_ ?_ fun _ => ?_
    · rw [hslot3]
      exact Int.one_pos
    · rw [hslot3]
      rfl
    · rw [hslot3]
      rfl
    · rw [hslot3]
      change IBLOCK 2 < s2.disksize
      rw [hdisk2, hv1.disksize]
      decide
    · rw [hslot3]
      change (dinode s2.sector 2).type ≠ 0
      rw [hsect2, hsame1.dinode_eq (by decide), hw.dinode_eq, hinode, upd_same]
      exact (by rw [ho.type]; decide : (s0.inode 1).type ≠ 0)
  set s4 := s3.setInode 2 fun ip => ip.locked s3.sector with hs4
  have hlog4 : s4.log = s1.log := hlog2
  have hr5 := run_beginTrans (s := s4) (by rw [hlog4, hb1])
  set s5 : State := { s4 with log := { s4.log with busy := true } } with hs5
  have hsect5 : s5.sector = s1.sector := hsect2
  have hv5 : Volume s5 := by
    have hv2 : Volume s2 := hv1.congr hdisk2 hsect2 (by rw [hlog2]) (by rw [hlog2]) (by rw [hlog2])
    exact hv2.congr rfl rfl rfl rfl rfl
  have hdev5 : (s5.inode 2).dev = ROOTDEV := by
    change (s4.inode 2).dev = _
    rw [hs4, State.setInode_inode_same, locked_dev, hslot3]
    rfl
  have hnext5 : (s5.inode 3).dev = 0 := by
    change (s4.inode 3).dev = _
    rw [hs4, State.setInode_inode_ne _ _ (by decide), hs3, State.setInode_inode_ne _ _ (by decide),
      hkeep2 3 (by decide), hnew 3 (by decide)]
  have hcard5 : 3 ≤ (freeBlocks s5.sector).card := by
    have := hw.card
    rw [hsect5, freeBlocks_congr fun x hx => hsame1.used_eq hx]
    omega
  have hroom5 : Room s5 7 := by
    refine ⟨rfl, ?_⟩
    change s4.log.lh.length + 7 ≤ _
    rw [hlog4, hlh1]
    decide
  obtain ⟨b', s6, hr6, hfree6⟩ := wp_total (wp_bmap_double
    (Q := fun b' _ => used s5.sector b' = false) (E := fun _ _ => False) hv5 hdev5 hnext5 hcard5
    hroom5 fun _ _ _ hd => hd.free)
  refine ⟨img, s0, s1, _, s2, s3, s4, s5, s6, b, b', ho, .tail (.tail hrun
    (.writei rfl hadm trivial hr)) (.commitTrans hr1), ?_, hevict, hget, hlock, hr5,
    run_bmap hdev1 (hpath1.found hv1), hr6, fun he => ?_⟩
  · rw [hslot1]
    exact Nat.lt_succ_self _
  · rw [hsect5, he, hpath1.block.2.2] at hfree6
    exact Bool.noConfusion hfree6

end Xv6
