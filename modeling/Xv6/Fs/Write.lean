import Xv6.Fs.Tree
import Mathlib.Data.List.GetD

/-!
# `writei`

`Wrote A i k s off w s'` says what the loop of `writei` does: the bytes `w` are at offset `off` of
the inode in slot `k`, its other bytes and the blocks of every other inode are as before. -/

namespace Xv6

open Lib Prog

/-- Byte `o` of a file with addresses `a`. -/
def byteAt (sect : Nat → Bytes) (a : Nat → Nat) (o : Nat) : Byte :=
  sect (ptr sect a (posOf (o / BSIZE))) (o % BSIZE)

/-- Byte `o` of a file with addresses `a` lies in an allocated block. -/
def HasBlock (sect : Nat → Bytes) (a : Nat → Nat) (o : Nat) : Prop :=
  ptr sect a (posOf (o / BSIZE)) ≠ 0

/-- `s'` is `s` after the bytes `w` were written at offset `off` of the inode in slot `k`. -/
structure Wrote (A : Nat → Nat → Nat) (i k : Nat) (s : State) (off : Nat) (w : List Byte)
    (s' : State) : Prop extends Gains k s s' where
  tree : Tree A i k s'
  sector : ∀ c < LOGSTART, used s.sector c = true → ¬ IsBitmap c →
    (∀ q, ptr s.sector (s.inode k).addrs q ≠ c) → s'.sector c = s.sector c
  mapped : ∀ j < w.length, HasBlock s'.sector (s'.inode k).addrs (off + j)
  inside : ∀ j < w.length, byteAt s'.sector (s'.inode k).addrs (off + j) = w.getD j 0
  outside : ∀ o, HasBlock s.sector (s.inode k).addrs o → (o < off ∨ off + w.length ≤ o) →
    byteAt s'.sector (s'.inode k).addrs o = byteAt s.sector (s.inode k).addrs o

section Wrote

variable {A : Nat → Nat → Nat} {i k off : Nat} {s s' s'' : State} {w w' : List Byte}

lemma Wrote.hasBlock (h : Wrote A i k s off w s') {o : Nat}
    (ho : HasBlock s.sector (s.inode k).addrs o) : HasBlock s'.sector (s'.inode k).addrs o := by
  unfold HasBlock at ho ⊢
  rwa [h.keep _ ho]

/-- A block that belongs to no pointer of the inode before belongs to none after. -/
lemma Wrote.ptr_ne (h : Wrote A i k s off w s') {c : Nat} (hu : used s.sector c = true)
    (hc : ∀ q, ptr s.sector (s.inode k).addrs q ≠ c) (q : Nat) :
    ptr s'.sector (s'.inode k).addrs q ≠ c := by
  have hc0 : c ≠ 0 := fun h0 => hc NPOS ((ptr_eq_zero le_rfl).trans h0.symm)
  by_cases hq : ptr s.sector (s.inode k).addrs q = 0
  · rintro rfl
    rw [(h.fresh q hq hc0).2] at hu
    exact Bool.noConfusion hu
  · rw [h.keep q hq]
    exact hc q

lemma Wrote.trans (h : Wrote A i k s off w s') (h' : Wrote A i k s' (off + w.length) w' s'') :
    Wrote A i k s off (w ++ w') s'' where
  toGains := h.toGains.trans h'.toGains
  tree := h'.tree
  sector c hc hu hnb hne := by
    rw [h'.sector c hc (h.marks c (hc.trans (by decide)) hu) hnb (h.ptr_ne hu hne),
      h.sector c hc hu hnb hne]
  mapped j hj := by
    rw [List.length_append] at hj
    rcases Nat.lt_or_ge j w.length with hlt | hge
    · exact h'.hasBlock (h.mapped j hlt)
    · have := h'.mapped (j - w.length) (by omega)
      rwa [Nat.add_assoc, Nat.add_sub_cancel' hge] at this
  inside j hj := by
    rw [List.length_append] at hj
    rcases Nat.lt_or_ge j w.length with hlt | hge
    · rw [h'.outside _ (h.mapped j hlt) (.inl (by omega)), h.inside j hlt,
        List.getD_append _ _ _ _ hlt]
    · have := h'.inside (j - w.length) (by omega)
      rw [Nat.add_assoc, Nat.add_sub_cancel' hge] at this
      rw [this, List.getD_append_right _ _ _ _ hge]
  outside o ho hout := by
    rw [List.length_append] at hout
    rw [h'.outside o (h.hasBlock ho) (by omega), h.outside o ho (by omega)]

/-- Allocating blocks writes no bytes of the file. -/
lemma Grow.wrote (h : Grow k s s') (ht : Tree A i k s) (ht' : Tree A i k s') :
    Wrote A i k s off [] s' where
  toGains := h.toGains
  tree := ht'
  sector c hc hu hnb hne := h.sector c hc hu hnb fun e =>
    hne NDIRECT ((ptr_direct le_rfl).trans e.symm)
  mapped j hj := absurd hj (Nat.not_lt_zero j)
  inside j hj := absurd hj (Nat.not_lt_zero j)
  outside o ho _ := by
    have hd := ht.own ho
    unfold byteAt
    rw [h.keep _ ho]
    refine congrFun (h.sector _ hd.2.1 hd.2.2 hd.not_bitmap fun e => ?_) _
    exact posOf_ne_indirect _ (ht.own_inj ho (e.trans (ptr_direct le_rfl).symm))

/-- Storing bytes in one block of the file. -/
lemma Tree.wrote_block (h : Tree A i k s) {m : Nat} (hm : m = w.length)
    (hoff : off % BSIZE + m ≤ BSIZE) (hm0 : 0 < m)
    (hb : HasBlock s.sector (s.inode k).addrs off) (hlen : s.log.lh.length < LOGCAP) :
    Wrote A i k s off w (s.logged (ptr s.sector (s.inode k).addrs (posOf (off / BSIZE)))
      ((s.sector (ptr s.sector (s.inode k).addrs (posOf (off / BSIZE)))).splice
        (off % BSIZE) w)) := by
  subst hm
  set r := ptr s.sector (s.inode k).addrs (posOf (off / BSIZE)) with hr
  set data := (s.sector r).splice (off % BSIZE) w with hdata
  have hd : Data s.sector r := h.own hb
  obtain ⟨hvol, hused⟩ : Volume (s.logged r data) ∧ _ :=
    h.volume.logged hd.2.1 hd.ne_one hd.not_bitmap hlen
  have hsect : ∀ c < LOGSTART, c ≠ r → (s.logged r data).sector c = s.sector c :=
    fun c hc hne => h.volume.sector_logged_ne hc hne
  have hrsect : (s.logged r data).sector r = data := h.volume.sector_logged_same hd.2.1
  -- `r` is no indirect block, so all pointers stay
  have hown : ∀ q, ptr (s.logged r data).sector (s.inode k).addrs q =
      ptr s.sector (s.inode k).addrs q := fun q => by
    refine ptr_congr (fun _ _ => rfl) fun hi => hsect _ (h.indirect hi).2.1 fun e => ?_
    have hq := h.own_inj (q := posOf (off / BSIZE)) (p := NDIRECT) hb
      (hr.symm.trans (e.symm.trans (ptr_direct le_rfl).symm))
    exact posOf_ne_indirect _ hq
  have hother : ∀ j q, j ≠ i → ptr (s.logged r data).sector (A j) q = ptr s.sector (A j) q :=
    fun j q hj => by
    refine ptr_congr (fun _ _ => rfl) fun hi => ?_
    have hq : ptr s.sector (A j) NDIRECT ≠ 0 := by rwa [ptr_direct le_rfl]
    have hdj := h.other hj hq
    have hne := h.other_ne (p := posOf (off / BSIZE)) hj hq
    rw [ptr_direct le_rfl] at hdj hne
    exact hsect _ hdj.2.1 hne
  have hbyte : ∀ o, HasBlock s.sector (s.inode k).addrs o →
      byteAt (s.logged r data).sector (s.inode k).addrs o =
        if o / BSIZE = off / BSIZE then data (o % BSIZE)
        else byteAt s.sector (s.inode k).addrs o := fun o ho => by
    unfold byteAt
    rw [hown]
    split_ifs with hbn
    · rw [hbn, ← hr, hrsect]
    · refine congrFun (hsect _ (h.own ho).2.1 fun e => hbn ?_) _
      exact posOf_inj (h.own_inj ho (e.trans hr))
  have hin : ∀ j < w.length, (off + j) / BSIZE = off / BSIZE ∧
      (off + j) % BSIZE = off % BSIZE + j := fun j hj => by
    simp only [BSIZE] at hoff ⊢
    omega
  refine ⟨⟨⟨rfl, (upd_eq_self _ _).symm, rfl, rfl, rfl, rfl,
    fun c hc => mem_logged_lh.mpr (.inr hc)⟩, fun b hb hu => (hused b hb).trans hu,
    fun q _ => hown q, fun q hq hq' => absurd ((hown q).trans hq) hq'⟩, ⟨hvol, ?_⟩,
    fun c hc _ _ hne => hsect c hc fun e => hne _ (hr.symm.trans e.symm), fun j hj => ?_,
    fun j hj => ?_, fun o ho hout => ?_⟩
  · refine (h.ptrs.congr fun y => ?_).mono fun b hb => ⟨hb.1, hb.2.1, ?_⟩
    · obtain ⟨j, q⟩ := y
      simp only [Xv6.ptrs]
      by_cases hj : j = i
      · subst hj
        rw [upd_same, upd_same]
        exact hown q
      · rw [upd_ne hj, upd_ne hj, hother j q hj]
    · rw [hused b hb.lt_size]
      exact hb.2.2
  · change ptr (s.logged r data).sector (s.inode k).addrs _ ≠ 0
    rw [hown, (hin j hj).1]
    exact hb
  · have hj' : HasBlock s.sector (s.inode k).addrs (off + j) := by
      unfold HasBlock
      rw [(hin j hj).1]
      exact hb
    refine (hbyte _ hj').trans ?_
    rw [if_pos (hin j hj).1, (hin j hj).2, hdata, Bytes.splice, if_pos (by omega),
      Nat.add_sub_cancel_left]
  · refine (hbyte o ho).trans ?_
    split_ifs with hbn
    · have hmod : o % BSIZE < off % BSIZE ∨ off % BSIZE + w.length ≤ o % BSIZE := by
        simp only [BSIZE] at hbn hoff ⊢
        omega
      rw [hdata, Bytes.splice, if_neg (by omega), byteAt, hbn]
    · rfl

end Wrote

/-! ### The loop of `writei` -/

/-- Blocks that `n` bytes at offset `off` lie in. -/
def nblk (off n : Nat) : Nat := if n = 0 then 0 else (off % BSIZE + n + (BSIZE - 1)) / BSIZE

lemma nblk_step {off n m : Nat} (hn : n ≠ 0) (hm : m = min n (BSIZE - off % BSIZE)) :
    nblk off n = nblk (off + m) (n - m) + 1 := by
  unfold nblk
  simp only [BSIZE] at *
  split_ifs <;> omega

section Loop

variable {A : Nat → Nat → Nat} {i k : Nat} {Q : Unit → State → Prop}
  {E : Option Panic → State → Prop}

/-- What `bmap` and `log_write` of one block do to the log. -/
lemma logged_cost {s : State} {r : Nat} {data : Bytes} :
    (s.logged r data).log.lh.length + indCost (s.logged r data) k ≤
      s.log.lh.length + indCost s k + if r ∈ s.log.lh then 0 else 1 := by
  have hcost : indCost (s.logged r data) k ≤ indCost s k :=
    indCost_mono rfl fun c hc => mem_logged_lh.mpr (.inr hc)
  split_ifs with hr
  · rw [logged_length_of_mem hr]
    omega
  · have : (s.logged r data).log.lh.length ≤ _ := logged_length_le
    omega

/-- What the loop of `writei` needs before it writes `src` at `off`, for a file without double
indirection, and what follows from it for a goal `Q`. Blocks are needed only where the file has
none. -/
structure ToWrite (A : Nat → Nat → Nat) (i k : Nat) (Q : Unit → State → Prop)
    (E : Option Panic → State → Prop) (s : State) (off : Nat) (src : List Byte) : Prop where
  tree : Tree A i k s
  dev : (s.inode k).dev = ROOTDEV
  max : off + src.length ≤ SMALLFILE * BSIZE
  free : (∃ j < src.length, ¬ HasBlock s.sector (s.inode k).addrs (off + j)) →
    nblk off src.length + indMissing s k ≤ (freeBlocks s.sector).card
  room : Room s (indCost s k + 2 * nblk off src.length + 1) ∨ ∀ e s', E e s'
  post : ∀ s', Wrote A i k s off src s' →
    ((∀ j < src.length, HasBlock s.sector (s.inode k).addrs (off + j)) → s'.inode = s.inode) →
    s'.log.lh.length + indCost s' k ≤ s.log.lh.length + indCost s k + 2 * nblk off src.length →
    (freeBlocks s.sector).card + indMissing s' k ≤
      (freeBlocks s'.sector).card + nblk off src.length + indMissing s k → Q () s'

variable {s s1 : State} {off m : Nat} {src : List Byte}

lemma ToWrite.done (h : ToWrite A i k Q E s off []) : Q () s :=
  h.post s ((Grow.refl k s).wrote h.tree h.tree) (fun _ => rfl) (by simp) (by simp)

/-- One iteration, once block `off / BSIZE` has been found or allocated in `s1`. -/
lemma ToWrite.step (h : ToWrite A i k Q E s off src) (h0 : src.length ≠ 0)
    (hm : m = min src.length (BSIZE - off % BSIZE)) (hg : Grow k s s1) (ht1 : Tree A i k s1)
    (hb1 : HasBlock s1.sector (s1.inode k).addrs off)
    (hsame : HasBlock s.sector (s.inode k).addrs off → s1 = s)
    (hcard : (freeBlocks s.sector).card + indMissing s1 k ≤
      (freeBlocks s1.sector).card + 1 + indMissing s k)
    {r : Nat} (hr : r = ptr s1.sector (s1.inode k).addrs (posOf (off / BSIZE)))
    (hcost : s1.log.lh.length + indCost s1 k + (if r ∈ s1.log.lh then 0 else 1) ≤
      s.log.lh.length + indCost s k + 2)
    (hlen : s1.log.lh.length < LOGCAP) :
    ToWrite A i k Q E (s1.logged r ((s1.sector r).splice (off % BSIZE) (src.take m))) (off + m)
      (src.drop m) := by
  have hstep : nblk off src.length = _ := nblk_step h0 hm
  have hm0 : 0 < m := by simp only [BSIZE] at hm; omega
  have hmod : off % BSIZE + m ≤ BSIZE := by simp only [BSIZE] at hm ⊢; omega
  have htake : m = (src.take m).length := by rw [List.length_take]; omega
  have hdrop : (src.drop m).length = src.length - m := List.length_drop
  have hd1 := ht1.own hb1
  have hw := ht1.wrote_block htake hmod hm0 hb1 hlen
  rw [← hr] at hd1 hw
  generalize hs2 : s1.logged r ((s1.sector r).splice (off % BSIZE) (src.take m)) = s2 at hw ⊢
  have hcost2 : s2.log.lh.length + indCost s2 k ≤ s.log.lh.length + indCost s k + 2 :=
    hs2 ▸ logged_cost.trans hcost
  have hfree2 : freeBlocks s2.sector = freeBlocks s1.sector :=
    hs2 ▸ freeBlocks_congr (ht1.volume.logged hd1.2.1 hd1.ne_one hd1.not_bitmap hlen).2
  have hinode2 : s2.inode = s1.inode := hs2 ▸ rfl
  have hw2 : Wrote A i k s off (src.take m) s2 := (hg.wrote h.tree ht1).trans hw
  have hmiss : indMissing s2 k = indMissing s1 k := by unfold indMissing; rw [hinode2]
  have hblock : ∀ j, HasBlock s.sector (s.inode k).addrs (off + (m + j)) →
      HasBlock s2.sector (s2.inode k).addrs (off + m + j) := fun j hb => by
    have := hw2.hasBlock hb
    rwa [← Nat.add_assoc] at this
  refine ⟨hw.tree, ?_, by have := h.max; omega, ?_, ?_, fun s' hw' hstill hlen' hcard' => ?_⟩
  · rw [hw2.slot]
    exact h.dev
  · rintro ⟨j, hj, hno⟩
    rw [hdrop] at hj ⊢
    have hneed := h.free ⟨m + j, by omega, fun hb => hno (hblock j hb)⟩
    rw [hfree2]
    omega
  · refine h.room.imp_left fun hroom => ⟨hw2.busy.trans hroom.1, ?_⟩
    have := hroom.2
    rw [hdrop]
    omega
  · rw [hdrop] at hlen' hcard'
    rw [hfree2] at hcard'
    refine h.post s' ?_ (fun hmap => ?_) (by omega) (by omega)
    · have hrest : Wrote A i k s2 (off + (src.take m).length) (src.drop m) s' := by rwa [← htake]
      have := hw2.trans hrest
      rwa [List.take_append_drop] at this
    · have hs1 : s1 = s := hsame (hmap 0 (by omega))
      rw [hstill fun j hj => ?_, hinode2, hs1]
      rw [hdrop] at hj
      exact hblock j (hmap (m + j) (by omega))

/-- Each round writes what fits in the block at `off`. -/
lemma wp_writeiLoop (fuel : Nat) : ∀ {s : State} {off : Nat} {src : List Byte},
    src.length ≤ fuel → ToWrite A i k Q E s off src → (writeiLoop k off src fuel).wp Q E s := by
  induction fuel with
  | zero =>
    intro s off src hfuel h
    obtain rfl : src = [] := List.length_eq_zero_iff.mp (by omega)
    exact h.done
  | succ fuel ih =>
    intro s off src hfuel h
    unfold writeiLoop
    split_ifs with h0
    · obtain rfl : src = [] := List.length_eq_zero_iff.mp h0
      exact h.done
    rw [wp_read, h.dev]
    obtain ⟨m, hm⟩ : ∃ m, m = min src.length (BSIZE - off % BSIZE) := ⟨_, rfl⟩
    have hstep : nblk off src.length = _ := nblk_step h0 hm
    have hdrop : (src.drop m).length ≤ fuel := by
      rw [List.length_drop]
      simp only [BSIZE] at hm
      omega
    rw [← hm]
    refine wp_bind.mpr (wp_bmap h.tree h.dev ?_ (fun hmiss => ?_)
      (h.room.imp_left fun hr => hr.mono (by omega)) (fun hfound => ?_) fun r s1 hx => ?_)
    · have := h.max
      simp only [SMALLFILE, NDIRECT, NINDIRECT, BSIZE] at *
      omega
    · have := h.free ⟨0, by omega, fun hb => hb hmiss⟩
      omega
    · refine wp_bread h.tree.volume.toLayout (h.tree.own hfound).lt_size (wp_bind.mpr
        (wp_logWrite h.tree.volume.toLayout (h.room.imp_left fun hr => hr.mono (by omega))
          fun hbusy hlen => ih hdrop ?_))
      refine h.step h0 hm (Grow.refl k s) h.tree hfound (fun _ => rfl) (by omega) rfl ?_ hlen
      split_ifs <;> omega
    · have hr := hx.found
      have hb : HasBlock s1.sector (s1.inode k).addrs off := by
        rw [HasBlock, hr]
        exact hx.ne_zero
      have hlength := hx.length
      refine wp_bread hx.tree.volume.toLayout (hr ▸ hx.tree.own hb).lt_size (wp_bind.mpr
        (wp_logWrite hx.tree.volume.toLayout (h.room.imp_left fun hroom =>
          ⟨hx.grow.busy.trans hroom.1, ?_⟩) fun hbusy hlen => ih hdrop ?_))
      · have := hroom.2
        omega
      · refine h.step h0 hm hx.grow hx.tree hb (fun hb => absurd hx.missing hb) hx.card hr.symm ?_
          hlen
        rw [if_pos hx.mem]
        omega

end Loop

end Xv6
