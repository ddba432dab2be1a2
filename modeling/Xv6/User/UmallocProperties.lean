import Xv6.User.FreeList

/-!
# What `malloc` and `free` do to the user heap

`malloc` goes round the free list and takes a block, with memory from `sbrk` if it must. Every call
ends, and over all calls of a program the blocks that it uses and the free ones make up the memory.
-/

namespace Xv6.User.Heap

open Lib List

section Malloc

variable {base n k m : Nat} {s s' : Heap} {sbrk : Sbrk} {F O L B R : List Nat} {x y p prevp r : Nat}

/-! ### Taking a block -/

/-- The call has taken block `x`, of `n` units. -/
structure Takes (base n : Nat) (s : Heap) (O : List Nat) (r : Nat) (s' : Heap) (x : Nat) :
    Prop where
  result : r = x + HEADER
  keeps : Keeps s s' O
  size : s'.size x = n
  ok : ∃ F, Ok base s' F (x :: O)

lemma gap_trans {a b c : Nat} (hab : s.Gap a b) (hbc : s.Gap b c) : s.Gap a c := by
  unfold Gap at *
  omega

instance : Trans s.Gap s.Gap s.Gap := ⟨gap_trans⟩

namespace Ok

/-- `malloc` takes a block of the right size out of the list. -/
lemma takes_whole (h : Ok base s F O) (hl : base :: F = L ++ prevp :: p :: B)
    (hsize : s.size p = n) :
    Takes base n s O (p + HEADER) { s.setPtr prevp (s.ptr p) with freep := prevp } p := by
  have hsorted := h.sorted
  rw [hl] at hsorted
  obtain ⟨-, hright, hacross⟩ := pairwise_append.mp hsorted
  have hL : ∀ x ∈ L, x ≠ prevp := fun x hx => (hacross x hx prevp (by simp)).ne
  have hB : ∀ x ∈ B, x ≠ prevp := fun x hx => ((pairwise_cons.mp hright).1 x (by simp [hx])).ne'
  obtain ⟨F', hF', hperm⟩ : ∃ F', base :: F' = L ++ prevp :: B ∧ F.Perm (p :: F') := by
    cases L with
    | nil =>
      obtain ⟨rfl, rfl⟩ := List.cons.inj hl
      exact ⟨B, rfl, List.Perm.refl _⟩
    | cons b L =>
      rw [cons_append] at hl
      obtain ⟨rfl, rfl⟩ := List.cons.inj hl
      refine ⟨L ++ prevp :: B, rfl, ?_⟩
      rw [perm_iff_count]
      intro a
      simp only [count_append, count_cons]
      omega
  have hptr : s.ptr p = B.headD base := h.ptr_eq (L := L ++ [prevp]) (by simp [hl])
  have hgaps := h.gaps
  have hring : (L ++ [prevp] ++ p :: (B ++ [base])).IsChain s.Next := by
    have hring := h.ring
    rw [hl] at hring
    simpa using hring
  rw [hl] at hgaps
  refine ⟨rfl, ⟨rfl, fun _ => .inl, fun _ _ => rfl⟩, hsize, F', ?_⟩
  constructor
  case pos => exact h.pos
  case ring =>
    rw [hF', append_assoc, cons_append, isChain_split]
    constructor
    · apply isChain_concat_congr hring.left_of_append
      intro x hx y hxy
      exact (ptr_setPtr_ne (hL x hx)).trans hxy
    · apply isChain_next_cons (by rw [← hptr]; exact ptr_setPtr)
      apply isChain_concat_congr (isChain_cons.mp hring.right_of_append).2
      intro x hx y hxy
      exact (ptr_setPtr_ne (hB x hx)).trans hxy
  case gaps =>
    rw [hF']
    exact hgaps.sublist (by simp)
  case base_size => exact h.base_size
  case freep =>
    rw [hF']
    simp
  case blocks =>
    apply h.blocks.perm
    exact (hperm.append_right O).trans perm_middle.symm
  case bounds => exact h.bounds

/-- A larger block is split and its tail end handed out. -/
lemma takes_part (h : Ok base s F O) (hp : p ∈ F) (hn : 0 < n) (hlt : n < s.size p)
    (hprev : prevp ∈ base :: F) :
    Takes base n s O (p + HEADER * (s.size p - n) + HEADER)
      { (s.setSize p (s.size p - n)).setSize (p + HEADER * (s.size p - n)) n with freep := prevp }
      (p + HEADER * (s.size p - n)) := by
  have hblocks : Blocks HEADER s.memory s.size (p :: (F.erase p ++ O)) :=
    h.blocks.perm ((perm_cons_erase hp).append_right O)
  have hbounds := h.bounds_of_mem (x := p) (by simp [hp])
  have hpos := Nat.mul_pos header_pos (show 0 < s.size p - n by omega)
  have hlen : HEADER * s.size p = HEADER * (s.size p - n) + HEADER * n := by
    rw [← Nat.mul_add, Nat.sub_add_cancel hlt.le]
  have hnpos := Nat.mul_pos header_pos hn
  generalize hx : p + HEADER * (s.size p - n) = x
  have hxp : x ≠ p := by omega
  -- the new block begins inside the old one, so no other begins there
  have hxrest : x ∉ F.erase p ++ O := hblocks.not_mem_inside header_pos (by omega) (by omega)
  have hprest : p ∉ F.erase p ++ O := (nodup_cons.mp (hblocks.nodup header_pos)).1
  have hsizep : ((s.setSize p (s.size p - n)).setSize x n).size p = s.size p - n := by
    rw [size_setSize_ne hxp.symm, size_setSize]
  have hother : ∀ z, z ≠ p → z ≠ x →
      ((s.setSize p (s.size p - n)).setSize x n).size z = s.size z := by
    intro z hzp hzx
    rw [size_setSize_ne hzx, size_setSize_ne hzp]
  have hrest : ∀ z ∈ F.erase p ++ O, ((s.setSize p (s.size p - n)).setSize x n).size z = s.size z :=
    fun z hz => hother z (fun e => hprest (e ▸ hz)) fun e => hxrest (e ▸ hz)
  have hbasex : base ≠ x := by omega
  have hbasep : base ≠ p := by
    have := header_pos
    omega
  refine ⟨rfl, ⟨rfl, fun _ => .inl, fun z hz => hrest z (by simp [hz])⟩, size_setSize, F, ?_⟩
  constructor
  case pos => exact h.pos
  case ring => exact h.ring
  case gaps =>
    apply isChain_frame h.gaps
    intro z hz y hzy
    by_cases hzp : z = p
    · subst hzp
      change z + HEADER * ((s.setSize z (s.size z - n)).setSize x n).size z < y
      rw [hsizep]
      unfold Gap at hzy
      omega
    · have hzx : z ≠ x := by
        rcases mem_cons.mp hz with rfl | hz
        · exact hbasex
        · rintro rfl
          exact hxrest (by simp [mem_erase_of_ne hzp, hz])
      change z + HEADER * ((s.setSize p (s.size p - n)).setSize x n).size z < y
      rwa [hother z hzp hzx]
  case base_size =>
    rw [← h.base_size]
    exact hother base hbasep hbasex
  case freep => exact hprev
  case blocks =>
    have hsplit := hblocks.split (a := s.size p - n) (b := n) (by omega) (by omega) hn hsizep
      (by rw [hx]; exact size_setSize) hrest
    rw [hx] at hsplit
    apply hsplit.perm
    have hperm := perm_cons_erase hp
    rw [perm_iff_count] at hperm ⊢
    intro a
    have ha := hperm a
    simp only [count_append, count_cons] at ha ⊢
    omega
  case bounds => exact h.bounds

/-- A block that is big enough is taken, or its last part is. -/
lemma takes (h : Ok base s F O) (hl : base :: F = L ++ prevp :: p :: B) (hn : 0 < n)
    (hle : n ≤ s.size p) :
    ∃ x, Takes base n s O (s.take n prevp p).1 (s.take n prevp p).2 x := by
  by_cases hsize : s.size p = n
  · refine ⟨p, ?_⟩
    rw [take, if_pos hsize]
    exact h.takes_whole hl hsize
  · have hp : p ∈ F := by
      have hmem : p ∈ base :: F := by simp [hl]
      refine (mem_cons.mp hmem).resolve_left fun e => ?_
      rw [e, h.base_size] at hle
      omega
    have hprev : prevp ∈ base :: F := by simp [hl]
    have hbounds := h.bounds_of_mem (x := p) (by simp [hp])
    have hplus : plus p (s.size p - n) = p + HEADER * (s.size p - n) := by
      apply Nat.mod_eq_of_lt
      simp only [HEADER] at *
      omega
    refine ⟨p + HEADER * (s.size p - n), ?_⟩
    rw [take, if_neg hsize]
    simp only [size_setSize, hplus]
    exact h.takes_part hp hn (by omega) hprev

end Ok

/-! ### `morecore` -/

lemma amount_eq {nu : Nat} (h : nu * HEADER < 2 ^ 31) : amount nu = nu * HEADER := by
  have hlt : nu * HEADER < 2 ^ 32 := by omega
  rw [amount, BitVec.toInt_eq_toNat_of_lt, BitVec.toNat_ofNat, Nat.mod_eq_of_lt hlt]
  · simp
  · rw [BitVec.toNat_ofNat, Nat.mod_eq_of_lt hlt]
    omega

namespace Ok

/-- New memory is one more block, which is not on the list yet. -/
lemma grown {hp c : Nat} (h : Ok base s F O) (hc : 0 < c) (hbase : base + HEADER ≤ hp)
    (htop : hp + HEADER * c < 2 ^ 32) (hmem : ∀ r ∈ s.memory, r.1 + HEADER * r.2 ≤ hp) :
    Ok base ({ s with memory := s.memory ++ [(hp, c)] }.setSize hp c) F (hp :: O) ∧
      ∀ x ∈ F ++ O, ({ s with memory := s.memory ++ [(hp, c)] }.setSize hp c).size x =
        s.size x := by
  have hne : ∀ x ∈ F ++ O, x ≠ hp := by
    intro x hx
    obtain ⟨r, hr, -, hlt⟩ := h.blocks.inside x hx 0 (Nat.mul_pos header_pos (h.blocks.pos x hx))
    have := hmem r hr
    omega
  have hbasehp : base ≠ hp := by
    have := header_pos
    omega
  have hsize : ∀ x, x ≠ hp →
      ({ s with memory := s.memory ++ [(hp, c)] }.setSize hp c).size x = s.size x :=
    fun x hx => size_setSize_ne hx
  refine ⟨?_, fun x hx => hsize x (hne x hx)⟩
  constructor
  case pos => exact h.pos
  case ring => exact h.ring
  case gaps =>
    apply isChain_frame h.gaps
    intro x hx y hxy
    have hxhp : x ≠ hp := by
      rcases mem_cons.mp hx with rfl | hx
      · exact hbasehp
      · exact hne x (by simp [hx])
    rwa [Gap, hsize x hxhp]
  case base_size => exact (hsize base hbasehp).trans h.base_size
  case freep => exact h.freep
  case blocks =>
    have hadd : Blocks HEADER (s.memory ++ [(hp, c)]) (upd s.size hp c) (hp :: (F ++ O)) :=
      h.blocks.add header_pos hmem hc (upd_same _ _ _) fun x hx => hsize x (hne x hx)
    exact hadd.perm perm_middle.symm
  case bounds =>
    intro r hr
    rcases mem_append.mp hr with hr | hr
    · exact h.bounds r hr
    · obtain rfl := mem_singleton.mp hr
      exact ⟨hbase, htop⟩

/-- `morecore` ends. If `sbrk` does not fail, the list has a block that is big enough. -/
lemma exists_morecore {nu : Nat} (h : Ok base s F O) (hfresh : Fresh base sbrk)
    (hnu : nu * HEADER < 2 ^ 31) :
    ∃ k r s', s.morecore sbrk k nu = some (r, s') ∧ Keeps s s' O ∧ ∃ F', Ok base s' F' O ∧
      (r = 0 ∨ r = s'.freep ∧ ∃ x ∈ F', nu ≤ s'.size x) := by
  simp only [morecore]
  obtain ⟨c, hc, hle, hpos, hlt⟩ : ∃ c, c = (if nu < 4096 then 4096 else nu) ∧ nu ≤ c ∧ 0 < c ∧
      c * HEADER < 2 ^ 31 := by
    refine ⟨_, rfl, ?_⟩
    simp only [HEADER] at *
    split_ifs <;> omega
  rw [← hc]
  have hamount := amount_eq hlt
  have hexact : Exact (c, amount c) := by
    refine ⟨hamount, ?_⟩
    simp only [hamount, HEADER]
    omega
  have hasked : ∀ e ∈ s.asked ++ [(c, amount c)], e ∈ s.asked ∨ Exact e := by
    intro e he
    rcases mem_append.mp he with he | he
    · exact .inl he
    · exact .inr (mem_singleton.mp he ▸ hexact)
  have h1 : Ok base { s with asked := s.asked ++ [(c, amount c)] } F O :=
    h.congr (fun _ _ => rfl) (fun _ _ => rfl) rfl rfl
  cases hs : sbrk s.memory (amount c) with
  | none => exact ⟨0, 0, _, rfl, ⟨rfl, hasked, fun _ _ => rfl⟩, F, h1, .inl rfl⟩
  | some hp =>
    obtain ⟨hbase, htop, hmem⟩ := hfresh _ _ _ hs
    have hunits : (amount c).toNat / HEADER = c := by
      rw [hamount]
      simp only [HEADER]
      omega
    rw [hamount] at htop
    obtain ⟨h2, hsize⟩ := h1.grown hpos hbase (by simp only [HEADER] at *; omega) hmem
    obtain ⟨k, s', hk, hkeeps, F', h', x, hx, hbig⟩ := exists_free (hp + HEADER) h2
    simp only [hunits]
    refine ⟨k, s'.freep, s', ?_, ?_, F', h', .inr ⟨rfl, x, hx, hle.trans ?_⟩⟩
    · rw [hk]
      rfl
    · refine Keeps.trans ?_ hkeeps
      exact ⟨rfl, hasked, fun x hx => hsize x (by simp [hx])⟩
    · refine le_trans ?_ hbig
      rw [Nat.add_sub_cancel, size_setSize]

end Ok

lemma morecore_mono {nu : Nat} {q : Nat × Heap} (h : s.morecore sbrk k nu = some q) (hkm : k ≤ m) :
    s.morecore sbrk m nu = some q := by
  simp only [morecore] at h ⊢
  generalize (if nu < 4096 then 4096 else nu) = c at h ⊢
  cases hs : sbrk s.memory (amount c) with
  | none =>
    rw [hs] at h
    exact h
  | some hp =>
    rw [hs] at h
    obtain ⟨s1, hfree, hq⟩ := Option.bind_eq_some_iff.mp h
    exact Option.bind_eq_some_iff.mpr ⟨s1, free_mono hfree hkm, hq⟩

/-! ### `malloc` -/

lemma mallocLoop_mono {q : Nat × Heap} (h : mallocLoop sbrk n k prevp p s = some q) (hkm : k ≤ m) :
    mallocLoop sbrk n m prevp p s = some q := by
  induction k generalizing m prevp p s with
  | zero => cases h
  | succ k ih =>
    obtain ⟨m, rfl⟩ := Nat.exists_eq_succ_of_ne_zero (show m ≠ 0 by omega)
    rw [mallocLoop] at h ⊢
    by_cases hle : n ≤ s.size p
    · rwa [if_pos hle] at h ⊢
    rw [if_neg hle] at h ⊢
    by_cases hfreep : p = s.freep
    · rw [if_pos hfreep] at h ⊢
      obtain ⟨⟨r, s1⟩, hcore, hq⟩ := Option.bind_eq_some_iff.mp h
      refine Option.bind_eq_some_iff.mpr ⟨(r, s1), morecore_mono hcore (by omega), ?_⟩
      dsimp only at hq ⊢
      by_cases h0 : r = 0
      · rwa [if_pos h0] at hq ⊢
      · rw [if_neg h0] at hq ⊢
        exact ih hq (by omega)
    · rw [if_neg hfreep] at h ⊢
      exact ih h (by omega)

/-- Round the list from `prevp`, up to where the search began: either a block is big enough, or the
loop comes back with none seen. -/
lemma mallocLoop_scan (hchain : (prevp :: R ++ [s.freep]).IsChain s.Next) (hnot : s.freep ∉ R) :
    (∃ k q, q ∈ prevp :: R ∧ n ≤ s.size (s.ptr q) ∧
      mallocLoop sbrk n k prevp (s.ptr prevp) s = some (s.take n q (s.ptr q))) ∨
    ((∀ y ∈ R ++ [s.freep], s.size y < n) ∧ ∃ q, ∀ k,
      mallocLoop sbrk n (k + R.length) prevp (s.ptr prevp) s = mallocLoop sbrk n k q
        s.freep s) := by
  induction R generalizing prevp with
  | nil =>
    have hptr : s.ptr prevp = s.freep := by simpa using hchain
    rw [hptr]
    by_cases hle : n ≤ s.size s.freep
    · left
      refine ⟨1, prevp, by simp, by rwa [hptr], ?_⟩
      rw [mallocLoop, if_pos hle, hptr]
    · right
      exact ⟨by simpa using hle, prevp, fun k => rfl⟩
  | cons y R ih =>
    obtain ⟨hptr, hchain⟩ := isChain_cons_cons.mp hchain
    rw [hptr]
    by_cases hle : n ≤ s.size y
    · left
      refine ⟨1, prevp, by simp, by rwa [hptr], ?_⟩
      rw [mallocLoop, if_pos hle, hptr]
    · have hy : y ≠ s.freep := fun e => hnot (by simp [e])
      have hstep : ∀ k, mallocLoop sbrk n (k + 1) prevp y s = mallocLoop sbrk n k y
          (s.ptr y) s := by
        intro k
        rw [mallocLoop, if_neg hle, if_neg hy]
      rcases ih hchain (fun hm => hnot (by simp [hm])) with ⟨k, q, hq, hbig, hk⟩ | ⟨hsmall, q, hk⟩
      · left
        exact ⟨k + 1, q, by simp [mem_cons.mp hq], hbig, by rw [hstep, hk]⟩
      · right
        refine ⟨?_, q, fun k => ?_⟩
        · intro z hz
          rcases mem_cons.mp hz with rfl | hz
          · omega
          · exact hsmall z hz
        · rw [length_cons, ← Nat.add_assoc, hstep, hk]

namespace Ok

/-- Where a block of the list leads to one that is not empty. -/
lemma exists_split (h : Ok base s F O) (hx : x ∈ base :: F) (hsize : 0 < s.size (s.ptr x)) :
    ∃ L B, base :: F = L ++ x :: s.ptr x :: B := by
  obtain ⟨L, B, hl⟩ := append_of_mem hx
  have hptr := h.ptr_eq hl
  cases B with
  | nil =>
    rw [hptr, headD_nil, h.base_size] at hsize
    exact absurd hsize (Nat.lt_irrefl 0)
  | cons y B =>
    rw [headD_cons] at hptr
    exact ⟨L, B, by rw [hptr, hl]⟩

variable (sbrk) in
/-- One way round the list. -/
lemma scan (h : Ok base s F O) (hn : 0 < n) :
    (∃ k r s' x, mallocLoop sbrk n k s.freep (s.ptr s.freep) s = some (r, s') ∧
      Takes base n s O r s' x) ∨
    ((∀ y ∈ base :: F, s.size y < n) ∧ ∃ c q, ∀ k,
      mallocLoop sbrk n (k + c) s.freep (s.ptr s.freep) s = mallocLoop sbrk n k q s.freep s) := by
  obtain ⟨R, hchain, hperm⟩ := h.around h.freep
  have hnodup : (s.freep :: R).Nodup := hperm.nodup_iff.mp (h.sorted.imp Nat.ne_of_lt)
  rcases mallocLoop_scan hchain (nodup_cons.mp hnodup).1 with ⟨k, q, hq, hbig, hk⟩ | ⟨hsmall, q, hk⟩
  · left
    obtain ⟨L, B, hl⟩ := h.exists_split (hperm.mem_iff.mpr hq) (hn.trans_le hbig)
    obtain ⟨x, hx⟩ := h.takes hl hn hbig
    exact ⟨k, _, _, x, hk, hx⟩
  · right
    refine ⟨fun y hy => hsmall y ?_, R.length, q, hk⟩
    have hmem := hperm.mem_iff.mp hy
    simp only [mem_cons, mem_append] at hmem ⊢
    tauto

/-- The loop of `malloc` ends: with a block, or without one because `sbrk` failed. -/
lemma exists_mallocLoop (h : Ok base s F O) (hfresh : Fresh base sbrk) (hn : 0 < n)
    (hlt : n * HEADER < 2 ^ 31) :
    ∃ k r s', mallocLoop sbrk n k s.freep (s.ptr s.freep) s = some (r, s') ∧
      ((∃ x, Takes base n s O r s' x) ∨ r = 0 ∧ Keeps s s' O ∧ ∃ F', Ok base s' F' O) := by
  rcases h.scan sbrk hn with ⟨k, r, s', x, hk, hx⟩ | ⟨hsmall, c, q, hround⟩
  · exact ⟨k, r, s', hk, .inl ⟨x, hx⟩⟩
  obtain ⟨k1, r, s1, hcore, hkeeps, F1, h1, hr⟩ := h.exists_morecore hfresh hlt
  have hstep : ∀ k, k1 ≤ k → mallocLoop sbrk n (k + 1) q s.freep s =
      if r = 0 then some (0, s1) else mallocLoop sbrk n k r (s1.ptr r) s1 := by
    intro k hle
    rw [mallocLoop, if_neg (by have := hsmall _ h.freep; omega), if_pos rfl,
      morecore_mono hcore hle]
    rfl
  rcases hr with rfl | ⟨rfl, x, hx, hbig⟩
  · refine ⟨k1 + 1 + c, 0, s1, ?_, .inr ⟨rfl, hkeeps, F1, h1⟩⟩
    rw [hround, hstep k1 le_rfl, if_pos rfl]
  · have hfreep := h1.freep_ne_zero
    -- the second time round there is a block
    rcases h1.scan sbrk hn with ⟨k, r, s', z, hk, hz⟩ | ⟨hsmall1, -⟩
    · refine ⟨max k1 k + 1 + c, r, s', ?_,
        .inl ⟨z, hz.result, hkeeps.trans hz.keeps, hz.size, hz.ok⟩⟩
      rw [hround, hstep _ (le_max_left _ _), if_neg hfreep]
      exact mallocLoop_mono hk (le_max_right _ _)
    · have := hsmall1 x (by simp [hx])
      omega

end Ok

/-! ### Whole runs -/

/-- The heap between two calls. -/
structure Inv (base : Nat) (s : Heap) : Prop where
  heap : s.freep = 0 ∧ s.memory = [] ∧ s.live = [] ∨ ∃ F, Ok base s F (s.live.map Given.header)
  fits : ∀ x ∈ s.live, x.addr = x.header + HEADER ∧ x.nbytes + HEADER ≤ HEADER * s.size x.header
  asked : ∀ e ∈ s.asked, Exact e

lemma nunits_eq {nbytes : Nat} (h : Small nbytes) :
    nbytes + HEADER ≤ HEADER * nunits nbytes ∧ nunits nbytes * HEADER < 2 ^ 31 := by
  simp only [Small, nunits, HEADER] at *
  omega

lemma malloc_unique {nbytes : Nat} {q q' : Nat × Heap} (h : s.malloc sbrk base k nbytes = some q)
    (h' : s.malloc sbrk base m nbytes = some q') : q = q' := by
  have hq := mallocLoop_mono h (le_max_left k m)
  rw [mallocLoop_mono h' (le_max_right k m)] at hq
  exact (Option.some.inj hq).symm

lemma free_unique {ap : Nat} {s'' : Heap} (h : s.free k ap = some s')
    (h' : s.free m ap = some s'') :
    s' = s'' := by
  have hq := free_mono h (le_max_left k m)
  rw [free_mono h' (le_max_right k m)] at hq
  exact (Option.some.inj hq).symm

namespace Inv

/-- The list at the first call is `base` alone. -/
lemma init (h : Inv base s) (hbase : 0 < base) :
    ∃ F, Ok base (s.init base) F (s.live.map Given.header) ∧
    Keeps s (s.init base) (s.live.map Given.header) := by
  rcases h.heap with ⟨hfreep, hmem, hlive⟩ | ⟨F, hok⟩
  · refine ⟨[], ?_, ?_⟩
    · rw [Heap.init, if_pos hfreep, hlive]
      constructor
      case pos => exact hbase
      case ring => simp [Next]
      case gaps => simp
      case base_size => simp
      case freep => simp [setSize, setPtr]
      case blocks =>
        change Blocks HEADER s.memory _ []
        rw [hmem]
        exact ⟨by simp, by simp, by simp, by simp, by simp⟩
      case bounds =>
        change ∀ r ∈ s.memory, _
        simp [hmem]
    · rw [Heap.init, if_pos hfreep]
      exact ⟨rfl, fun _ => .inl, by simp [hlive]⟩
  · refine ⟨F, ?_, ?_⟩
    · rwa [Heap.init, if_neg hok.freep_ne_zero]
    · rw [Heap.init, if_neg hok.freep_ne_zero]
      exact ⟨rfl, fun _ => .inl, fun _ _ => rfl⟩

/-- After a call the pointers in use still have their blocks. -/
lemma keeps (h : Inv base s) (hk : Keeps s s' (s.live.map Given.header)) :
    (∀ x ∈ s.live, x.addr = x.header + HEADER ∧ x.nbytes + HEADER ≤ HEADER * s'.size x.header) ∧
      ∀ e ∈ s'.asked, Exact e := by
  refine ⟨fun x hx => ?_, fun e he => (hk.asked e he).elim (h.asked e) id⟩
  rw [hk.size _ (mem_map_of_mem hx)]
  exact h.fits x hx

/-- `malloc` ends, with enough bytes unless it returns 0. -/
lemma exists_malloc {nbytes : Nat} (h : Inv base s) (hbase : 0 < base) (hsmall : Small nbytes)
    (hfresh : Fresh base sbrk) : ∃ k r s', s.malloc sbrk base k nbytes = some (r, s') ∧
      Inv base (s'.given r nbytes) ∧ (r = 0 ∨ nbytes + HEADER ≤ HEADER * s'.size (r - HEADER)) := by
  obtain ⟨hfit, hlt⟩ := nunits_eq hsmall
  have hn : 0 < nunits nbytes := Nat.succ_pos _
  obtain ⟨F, hok, hinit⟩ := h.init hbase
  obtain ⟨k, r, s', hk, hcall⟩ := hok.exists_mallocLoop hfresh hn hlt
  refine ⟨k, r, s', hk, ?_⟩
  rcases hcall with ⟨x, htakes⟩ | ⟨rfl, hkeeps, F', hok'⟩
  · have hkeep := hinit.trans htakes.keeps
    obtain ⟨hfits, hasked⟩ := h.keeps hkeep
    obtain ⟨F', hok'⟩ := htakes.ok
    have hx : r - HEADER = x := by rw [htakes.result, Nat.add_sub_cancel]
    have hbig : nbytes + HEADER ≤ HEADER * s'.size x := by rwa [htakes.size]
    have hgiven : s'.given r nbytes = { s' with live := ⟨r, nbytes⟩ :: s'.live } := by
      refine if_neg ?_
      rw [htakes.result]
      exact (Nat.add_pos_right x header_pos).ne'
    refine ⟨?_, .inr (by rwa [hx])⟩
    rw [hgiven]
    constructor
    case heap =>
      right
      refine ⟨F', ?_⟩
      change Ok base _ F' ((r - HEADER) :: s'.live.map Given.header)
      rw [hx, hkeep.live]
      exact hok'.congr (fun _ _ => rfl) (fun _ _ => rfl) rfl rfl
    case fits =>
      intro y hy
      rcases mem_cons.mp hy with rfl | hy
      · refine ⟨?_, ?_⟩
        · rw [Given.header, hx]
          exact htakes.result
        · rwa [Given.header, hx]
      · exact hfits y (hkeep.live ▸ hy)
    case asked => exact hasked
  · have hkeep := hinit.trans hkeeps
    obtain ⟨hfits, hasked⟩ := h.keeps hkeep
    refine ⟨?_, .inl rfl⟩
    rw [given, if_pos rfl]
    refine ⟨.inr ⟨F', ?_⟩, ?_, hasked⟩
    · rwa [hkeep.live]
    · rwa [hkeep.live]

/-- `free` ends. -/
lemma exists_free {x : Given} (h : Inv base s) (hx : x ∈ s.live) :
    ∃ k s', s.free k x.addr = some s' ∧
    Inv base { s' with live := s'.live.erase x } := by
  rcases h.heap with ⟨-, -, hlive⟩ | ⟨F, hok⟩
  · rw [hlive] at hx
    cases hx
  have hperm : (s.live.map Given.header).Perm
      ((x.addr - HEADER) :: (s.live.erase x).map Given.header) :=
    (perm_cons_erase hx).map Given.header
  have hok1 : Ok base s F ((x.addr - HEADER) :: (s.live.erase x).map Given.header) :=
    { hok with blocks := hok.blocks.perm (hperm.append_left F) }
  obtain ⟨k, s', hk, hkeeps, F', hok', -⟩ := Heap.exists_free x.addr hok1
  refine ⟨k, s', hk, ?_⟩
  rw [hkeeps.live]
  constructor
  case heap => exact .inr ⟨F', hok'.congr (fun _ _ => rfl) (fun _ _ => rfl) rfl rfl⟩
  case fits =>
    intro y hy
    change _ ∧ _ ≤ HEADER * s'.size y.header
    rw [hkeeps.size _ (mem_map_of_mem hy)]
    exact h.fits y (mem_of_mem_erase hy)
  case asked => exact fun e he => (hkeeps.asked e he).elim (h.asked e) id

/-- What the program stores into its blocks changes no header. -/
lemma not_used (h : Inv base s) (hok : Ok base s F (s.live.map Given.header)) {a : Nat}
    (ha : a ∈ base :: (F ++ s.live.map Given.header)) : ¬s.Used a := by
  rintro ⟨x, hx, hlo, hhi⟩
  obtain ⟨haddr, -⟩ := h.fits x hx
  have hheader : x.header ∈ F ++ s.live.map Given.header := by simp [mem_map_of_mem hx]
  have hbounds := (hok.bounds_of_mem hheader).1
  rcases mem_cons.mp ha with rfl | ha
  · omega
  by_cases heq : a = x.header
  · omega
  · have hpos := Nat.mul_le_mul_left HEADER (hok.blocks.pos a ha)
    rcases hok.blocks.apart_of_ne ha hheader heq with hle | hle <;> omega

lemma store {ptr size : Nat → Nat} (h : Inv base s)
    (hs : ∀ a, ¬s.Used a → ptr a = s.ptr a ∧ size a = s.size a) :
    Inv base { s with ptr := ptr, size := size } := by
  rcases h.heap with ⟨hfreep, hmem, hlive⟩ | ⟨F, hok⟩
  · refine ⟨.inl ⟨hfreep, hmem, hlive⟩, ?_, h.asked⟩
    simp [hlive]
  · have hkeep : ∀ a ∈ base :: (F ++ s.live.map Given.header), ptr a = s.ptr a ∧
      size a = s.size a :=
      fun a ha => hs a (h.not_used hok ha)
    constructor
    case heap =>
      right
      refine ⟨F, hok.congr (fun a ha => (hkeep a ?_).1) (fun a ha => (hkeep a ha).2) rfl rfl⟩
      simp only [mem_cons, mem_append] at ha ⊢
      tauto
    case fits =>
      intro x hx
      change _ ∧ _ ≤ HEADER * size x.header
      rw [(hkeep x.header (by simp [mem_map_of_mem hx])).2]
      exact h.fits x hx
    case asked => exact h.asked

lemma step (h : Inv base s) (hbase : 0 < base) (hs : Step base s s') : Inv base s' := by
  cases hs with
  | malloc small fresh hrun =>
    obtain ⟨k, r, s1, hk, hinv, -⟩ := h.exists_malloc hbase small fresh
    cases malloc_unique hk hrun
    exact hinv
  | free mem hrun =>
    obtain ⟨k, s1, hk, hinv⟩ := h.exists_free mem
    cases free_unique hk hrun
    exact hinv
  | store hs => exact h.store hs

end Inv

lemma Reachable.inv (h : Reachable base s) (hbase : 0 < base) : Inv base s := by
  induction h with
  | start ptr size => exact ⟨.inl ⟨rfl, rfl, rfl⟩, by simp, by simp⟩
  | step _ hs ih => exact ih.step hbase hs

/-- The blocks in use and the free list. -/
structure Sound (base : Nat) (s : Heap) : Prop where
  disjoint : s.live.Pairwise fun x y => NoOverlap HEADER s.size x.header y.header
  aligned : (∀ r ∈ s.memory, HEADER ∣ r.1) → ∀ x ∈ s.live, HEADER ∣ x.addr
  long : ∀ x ∈ s.live, x.addr + x.nbytes ≤ x.header + HEADER * s.size x.header
  inside : ∀ x ∈ s.live, ∀ i < HEADER * s.size x.header, Within HEADER s.memory (x.header + i)
  list : s.freep = 0 ∧ s.memory = [] ∧ s.live = [] ∨
    ∃ F, s.freep ∈ base :: F ∧ (base :: F ++ [base]).IsChain s.Next ∧ (base :: F).Pairwise s.Gap ∧
      (F.map s.size).sum + (s.live.map fun x => s.size x.header).sum = (s.memory.map Prod.snd).sum

lemma Inv.sound (h : Inv base s) : Sound base s := by
  rcases h.heap with ⟨hfreep, hmem, hlive⟩ | ⟨F, hok⟩
  · refine ⟨?_, ?_, ?_, ?_, .inl ⟨hfreep, hmem, hlive⟩⟩ <;> simp [hlive]
  constructor
  case disjoint =>
    have hapart := (pairwise_append.mp hok.blocks.apart).2.1
    exact pairwise_map.mp hapart
  case aligned =>
    intro hm x hx
    rw [(h.fits x hx).1]
    exact Nat.dvd_add_self_right.mpr (hok.blocks.align hm _ (by simp [mem_map_of_mem hx]))
  case long =>
    intro x hx
    have := h.fits x hx
    omega
  case inside =>
    intro x hx
    exact hok.blocks.inside _ (by simp [mem_map_of_mem hx])
  case list =>
    right
    refine ⟨F, hok.freep, hok.ring, hok.gaps.pairwise, ?_⟩
    rw [← hok.blocks.total, map_append, sum_append, map_map]
    rfl

/-- The memory that `sbrk` gives while `malloc` alone moves the break, which is at `b` first. -/
def FromBreak (b : Nat) : List (Nat × Nat) → Prop
  | [] => True
  | (a, n) :: mem => a = b ∧ FromBreak (b + HEADER * n) mem

/-- `malloc` asks for whole units, so that an aligned break stays aligned. -/
lemma FromBreak.aligned {mem : List (Nat × Nat)} {b : Nat} (h : FromBreak b mem) (hb : HEADER ∣ b) :
    ∀ r ∈ mem, HEADER ∣ r.1 := by
  induction mem generalizing b with
  | nil => simp
  | cons r mem ih =>
    obtain ⟨hr, hmem⟩ := h
    rw [forall_mem_cons]
    exact ⟨hr ▸ hb, ih hmem (Nat.dvd_add hb (Nat.dvd_mul_right ..))⟩

/-- The user heap is never corrupted or lost, and every call ends. -/
theorem heap_sound (hbase : 0 < base) (h : Reachable base s) : Sound base s ∧
    (∀ b, HEADER ∣ b → FromBreak b s.memory → ∀ x ∈ s.live, HEADER ∣ x.addr) ∧
    (∀ nbytes sbrk, Small nbytes → Fresh base sbrk →
      ∃ k r s', s.malloc sbrk base k nbytes = some (r, s')) ∧
    ∀ x ∈ s.live, ∃ k s', s.free k x.addr = some s' := by
  have hinv := h.inv hbase
  refine ⟨hinv.sound, fun b hb hmem => hinv.sound.aligned (hmem.aligned hb),
    fun nbytes sbrk hsmall hfresh => ?_, fun x hx => ?_⟩
  · obtain ⟨k, r, s', hk, -⟩ := hinv.exists_malloc hbase hsmall hfresh
    exact ⟨k, r, s', hk⟩
  · obtain ⟨k, s', hk, -⟩ := hinv.exists_free hx
    exact ⟨k, s', hk⟩

end Malloc

/-- `sbrk` gives memory at address 4096, once. -/
def sbrkOnce : Sbrk := fun mem n => if mem = [] ∧ n < 2 ^ 31 then some 4096 else none

lemma fresh_sbrkOnce : Fresh 8 sbrkOnce := by
  intro mem n hp h
  rw [sbrkOnce] at h
  split_ifs at h with hmem
  obtain rfl := Option.some.inj h
  rw [hmem.1]
  refine ⟨by decide, ?_, by simp⟩
  omega

def noHeap : Heap where
  ptr _ := 0
  size _ := 0

/-- A program that has asked for 100 bytes. -/
theorem heap_sound_hundred : ∃ s : Heap, s.live = [⟨36760, 100⟩] ∧ Sound 8 s ∧
    ∀ x ∈ s.live, HEADER ∣ x.addr := by
  have hrun : ∃ s', noHeap.malloc sbrkOnce 8 5 100 = some (36760, s') ∧ s'.live = [] ∧
    s'.memory = [(4096, 4096)] := ⟨_, rfl, rfl, rfl⟩
  obtain ⟨s', hrun, hlive, hmem⟩ := hrun
  have hstep : Step 8 noHeap (s'.given 36760 100) :=
    .malloc (by unfold Small HEADER; decide) fresh_sbrkOnce hrun
  obtain ⟨hsound, hbreak, -⟩ := heap_sound (by decide) ((Reachable.start _ _).step hstep)
  refine ⟨_, ?_, hsound, hbreak 4096 (by decide) ?_⟩
  · rw [given, if_neg (by decide), hlive]
  · rw [given, if_neg (by decide)]
    exact hmem ▸ ⟨rfl, trivial⟩

/-! ### The arithmetic of sizes -/

/-- `malloc` returns 0 or enough bytes, and `sbrk` is called with what `morecore` needs. -/
def NotFooled (nbytes r : Nat) (s : Heap) : Prop :=
  (r = 0 ∨ nbytes + HEADER ≤ HEADER * s.size (r - HEADER) ∧ ∀ i < nbytes,
    Within HEADER s.memory (r + i)) ∧
    ∀ e ∈ s.asked, Exact e

section Sizes

variable {base nbytes k r : Nat} {s s' : Heap} {sbrk : Sbrk}

lemma notFooled_of_small (hsmall : Small nbytes) (hbase : 0 < base) (h : Reachable base s)
    (hfresh : Fresh base sbrk) (hrun : s.malloc sbrk base k nbytes = some (r, s')) :
    NotFooled nbytes r s' := by
  obtain ⟨k', r', s'', hk, hinv, hbig⟩ := (h.inv hbase).exists_malloc hbase hsmall hfresh
  cases malloc_unique hk hrun
  by_cases hr : r = 0
  · rw [given, if_pos hr] at hinv
    exact ⟨.inl hr, hinv.asked⟩
  rw [given, if_neg hr] at hinv
  have hsound := hinv.sound
  have hlong := hsound.long ⟨r, nbytes⟩ (by simp)
  have hinside := hsound.inside ⟨r, nbytes⟩ (by simp)
  obtain ⟨haddr, -⟩ := hinv.fits ⟨r, nbytes⟩ (by simp)
  refine ⟨.inr ⟨hbig.resolve_left hr, fun i hi => ?_⟩, hinv.asked⟩
  have hin := hinside (HEADER + i) (by simp only at *; omega)
  rwa [← Nat.add_assoc, ← haddr] at hin

lemma small_iff : Small nbytes ↔ nbytes ≤ 2 ^ 31 - 16 := by
  simp only [Small, HEADER]
  omega

lemma amount_nonpos {nu : Nat} (hlo : 2 ^ 31 ≤ nu * HEADER) (hhi : nu * HEADER ≤ 2 ^ 32) :
    amount nu ≤ 0 := by
  rw [amount, BitVec.toInt_eq_toNat_cond, BitVec.toNat_ofNat]
  split_ifs <;> omega

/-- A size that `sbrk` takes for a negative number, or for 0. -/
lemma fooled_large (hlo : 2 ^ 31 - 16 < nbytes) (hhi : nbytes ≤ 2 ^ 32 - 8) :
    ∃ s', noHeap.malloc (fun _ _ => none) 8 1 nbytes = some (0, s') ∧ ¬NotFooled nbytes 0 s' := by
  obtain ⟨n, hn⟩ : ∃ n, nunits nbytes = n := ⟨_, rfl⟩
  have hbounds : 2 ^ 31 ≤ n * HEADER ∧ n * HEADER ≤ 2 ^ 32 := by
    rw [← hn, nunits]
    simp only [HEADER]
    omega
  have hbig : ¬n < 4096 := by
    simp only [HEADER] at hbounds
    omega
  refine ⟨{ noHeap.init 8 with asked := [(n, amount n)] }, ?_, fun h => ?_⟩
  · change mallocLoop _ (nunits nbytes) 1 8 8 (noHeap.init 8) = _
    have hsize : (noHeap.init 8).size 8 = 0 := rfl
    have hfreep : 8 = (noHeap.init 8).freep := rfl
    rw [hn, mallocLoop, hsize, if_neg (by omega), if_pos hfreep]
    simp only [morecore, if_neg hbig]
    rfl
  · have hexact := h.2 (n, amount n) (by simp)
    have hneg := amount_nonpos hbounds.1 hbounds.2
    exact absurd hexact.2 (not_lt.mpr hneg)

/-- A size that becomes a small one when it is rounded up. -/
lemma fooled_wrapped (hlo : 2 ^ 32 - 8 < nbytes) (hhi : nbytes < 2 ^ 32) :
    ∃ r s', noHeap.malloc sbrkOnce 8 5 nbytes = some (r, s') ∧ ¬NotFooled nbytes r s' := by
  have hn : nunits nbytes = 1 := by
    simp only [nunits, HEADER]
    omega
  obtain ⟨s', hrun, hsize⟩ : ∃ s', mallocLoop sbrkOnce 1 5 8 8 (noHeap.init 8) = some (36864, s') ∧
      s'.size 36856 = 1 := ⟨_, rfl, rfl⟩
  refine ⟨36864, s', ?_, fun h => ?_⟩
  · change mallocLoop _ (nunits nbytes) 5 8 8 (noHeap.init 8) = _
    rw [hn, hrun]
  · obtain ⟨hbig, -⟩ := h.1.resolve_left (by decide)
    rw [show 36864 - HEADER = 36856 from rfl, hsize] at hbig
    simp only [HEADER] at hbig
    omega

/-- `malloc` is not fooled by the arithmetic of sizes up to `2 ^ 31 - 16`. -/
theorem malloc_sizes_iff (nbytes : Nat) (hlt : nbytes < 2 ^ 32) :
    (∀ base s sbrk k r s', 0 < base → Reachable base s → Fresh base sbrk →
      s.malloc sbrk base k nbytes = some (r, s') → NotFooled nbytes r s') ↔
        nbytes ≤ 2 ^ 31 - 16 := by
  constructor
  · intro h
    by_contra hlarge
    have hstart : Reachable 8 noHeap := .start _ _
    by_cases hwrap : nbytes ≤ 2 ^ 32 - 8
    · obtain ⟨s', hrun, hfooled⟩ := fooled_large (by omega) hwrap
      exact hfooled (h 8 noHeap _ 1 0 s' (by decide) hstart (fun _ _ _ hsome =>
        absurd hsome (by simp)) hrun)
    · obtain ⟨r, s', hrun, hfooled⟩ := fooled_wrapped (by omega) hlt
      exact hfooled (h 8 noHeap _ 5 r s' (by decide) hstart fresh_sbrkOnce hrun)
  · intro hle base s sbrk k r s' hbase hreach hfresh hrun
    exact notFooled_of_small (small_iff.mpr hle) hbase hreach hfresh hrun

theorem malloc_sizes_iff_hundred : ∃ s', noHeap.malloc sbrkOnce 8 5 100 = some (36760, s') ∧
    NotFooled 100 36760 s' := by
  obtain ⟨s', hrun⟩ : ∃ s', noHeap.malloc sbrkOnce 8 5 100 = some (36760, s') := ⟨_, rfl⟩
  exact ⟨s', hrun, (malloc_sizes_iff 100 (by decide)).mpr (by decide) 8 noHeap sbrkOnce 5 36760 s'
    (by decide) (.start _ _) fresh_sbrkOnce hrun⟩

/-- For the largest size `malloc` returns a block without usable bytes, and for half of it `sbrk` is
called with a negative amount. -/
theorem malloc_fooled : Reachable 8 noHeap ∧ Fresh 8 sbrkOnce ∧
    (∃ r s', noHeap.malloc sbrkOnce 8 5 (2 ^ 32 - 1) = some (r, s') ∧
      ¬NotFooled (2 ^ 32 - 1) r s') ∧
    ∃ s', noHeap.malloc (fun _ _ => none) 8 1 (2 ^ 31) = some (0, s') ∧ ¬NotFooled (2 ^ 31) 0 s' :=
  ⟨.start _ _, fresh_sbrkOnce, fooled_wrapped (by decide) (by decide),
    fooled_large (by decide) (by decide)⟩

end Sizes

end Xv6.User.Heap
