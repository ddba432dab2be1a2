import Xv6.Fs.ReadWrite

/-!
# The images of `mkfs`

`Packed img F` is what holds of the image of `mkfs` between two calls of its own functions, and
`Draft` what holds inside `iappend`, whose inode is written to the disk only at the end.
-/

namespace Xv6.Mkfs

open Lib List

/-- The blocks `mkfs` has handed out. -/
def InImage (img : Image) (b : Nat) : Prop := DATASTART ≤ b ∧ b < img.freeblock

/-- The counters, the super block and the blocks not handed out yet. -/
structure Fresh (img : Image) : Prop where
  counters : img.usedblocks = img.freeblock
  lo : DATASTART ≤ img.freeblock
  super : img.sect 1 = blank.sect 1
  bitmap : ∀ b, IsBitmap b → img.sect b = zeroes
  zero : ∀ b, img.freeblock ≤ b → img.sect b = zeroes

/-- The blocks of a file hold the bytes `data`, and zeroes after them. -/
structure Contents (sect : Nat → Bytes) (addrs : Nat → Nat) (data : List Byte) : Prop where
  length : data.length ≤ SMALLFILE * BSIZE
  bytes : ∀ o < data.length, HasBlock sect addrs o ∧ byteAt sect addrs o = data.getD o 0
  tail : ∀ o, data.length ≤ o → HasBlock sect addrs o → byteAt sect addrs o = 0

/-- The contents stay when the pointers and the blocks they lead to do. -/
lemma Contents.congr {sect sect' : Nat → Bytes} {addrs addrs' : Nat → Nat} {data : List Byte}
    (h : Contents sect addrs data) (hptr : ∀ q, ptr sect' addrs' q = ptr sect addrs q)
    (hblock : ∀ q, ptr sect addrs q ≠ 0 → sect' (ptr sect addrs q) = sect (ptr sect addrs q)) :
    Contents sect' addrs' data := by
  have hhas : ∀ o, HasBlock sect' addrs' o ↔ HasBlock sect addrs o := fun o => by
    unfold HasBlock
    rw [hptr]
  have hbyte : ∀ o, HasBlock sect addrs o → byteAt sect' addrs' o = byteAt sect addrs o :=
    fun o ho => byteAt_congr (hptr _) (hblock _ ho)
  refine ⟨h.length, fun o ho => ?_, fun o ho hb => ?_⟩
  · rw [hhas, hbyte o (h.bytes o ho).1]
    exact h.bytes o ho
  · rw [hhas] at hb
    rw [hbyte o hb]
    exact h.tail o ho hb

/-- `img` is `img0` after bytes were appended to inode `i`: `din` is its copy in memory, whose bytes
are now `data`, and `A` are the addresses of the other inodes. -/
structure Draft (A : Nat → Nat → Nat) (i : Nat) (img0 img : Image) (din : Dinode)
    (data : List Byte) : Prop extends Contents img.sect din.addrs data where
  fresh : Fresh img
  ptrs : Pointers (ptrs img.sect (upd A i din.addrs)) (InImage img)
  freeinode : img.freeinode = img0.freeinode
  reserved : ∀ c < DATASTART, img.sect c = img0.sect c
  others : ∀ j q, j ≠ i → ptr img.sect (A j) q = ptr img0.sect (A j) q ∧
    (ptr img0.sect (A j) q ≠ 0 →
      img.sect (ptr img0.sect (A j) q) = img0.sect (ptr img0.sect (A j) q))

/-- Every block handed out is one that a pointer leads to. -/
def Covers (A : Nat → Nat → Nat) (img : Image) : Prop :=
  ∀ b, InImage img b → ∃ x, ptrs img.sect A x = b

/-- No block of a file lies past its first `n` bytes. -/
def NoMore (sect : Nat → Bytes) (addrs : Nat → Nat) (n : Nat) : Prop :=
  ∀ bn, n ≤ bn * BSIZE → ptr sect addrs (posOf bn) = 0

/-- A step of `iappend` for inode `i` takes no block without a pointer to it, and of the pointers of
the inode it changes at most those in `P`. -/
structure Extends (A : Nat → Nat → Nat) (i : Nat) (P : Nat → Prop) (img : Image) (din : Dinode)
    (img' : Image) (din' : Dinode) : Prop where
  covers : Covers (upd A i din.addrs) img → Covers (upd A i din'.addrs) img'
  ptr : ∀ q, ¬ P q → Xv6.ptr img'.sect din'.addrs q = Xv6.ptr img.sect din.addrs q

lemma Extends.refl {A : Nat → Nat → Nat} {i : Nat} {P : Nat → Prop} {img : Image} {din : Dinode} :
    Extends A i P img din img din := ⟨id, fun _ _ => rfl⟩

lemma Extends.trans {A : Nat → Nat → Nat} {i : Nat} {P Q R : Nat → Prop} {img img' img'' : Image}
    {din din' din'' : Dinode} (h : Extends A i P img din img' din')
    (h' : Extends A i Q img' din' img'' din'') (hP : ∀ q, P q → R q) (hQ : ∀ q, Q q → R q) :
    Extends A i R img din img'' din'' :=
  ⟨fun hc => h'.covers (h.covers hc), fun q hq =>
    (h'.ptr q fun hq' => hq (hQ q hq')).trans (h.ptr q fun hq' => hq (hP q hq'))⟩

section Draft

variable {A : Nat → Nat → Nat} {i e p : Nat} {img0 img : Image} {din : Dinode} {data : List Byte}

lemma not_isBitmap {b : Nat} (hb : DATASTART ≤ b) : ¬ IsBitmap b :=
  fun h => absurd h.2 (Nat.not_lt.mpr hb)

lemma InImage.ne_zero {b : Nat} (h : InImage img b) : b ≠ 0 := fun e => absurd (e ▸ h.1) (by decide)

lemma InImage.take {b : Nat} (h : InImage img b) : InImage (take img).2 b :=
  ⟨h.1, h.2.trans (Nat.lt_succ_self _)⟩

lemma Fresh.take (h : Fresh img) : Fresh (take img).2 :=
  ⟨congrArg (· + 1) h.counters, h.lo.trans (Nat.le_succ _), h.super, h.bitmap,
    fun b hb => h.zero b ((Nat.le_succ _).trans hb)⟩

/-- Writing a block that was handed out. -/
lemma Fresh.wsect (h : Fresh img) {b : Nat} {bp : Bytes} (hb : InImage img b) :
    Fresh (wsect img b bp) := by
  refine ⟨h.counters, h.lo, ?_, fun c hc => ?_, fun c hc => ?_⟩
  · exact (upd_ne fun e => absurd (e ▸ hb.1) (by decide)).trans h.super
  · exact (upd_ne fun e : c = b => not_isBitmap hb.1 (e ▸ hc)).trans (h.bitmap c hc)
  · refine (upd_ne fun e => ?_).trans (h.zero c hc)
    exact absurd hb.2 (Nat.not_lt.mpr (e ▸ hc))

lemma Draft.own (h : Draft A i img0 img din data) {q : Nat} (hq : ptr img.sect din.addrs q ≠ 0) :
    InImage img (ptr img.sect din.addrs q) := by
  have := h.ptrs.valid (i, q)
  simp only [Xv6.ptrs, upd_same] at this
  exact this hq

lemma Draft.indirect (h : Draft A i img0 img din data) (ha : din.addrs NDIRECT ≠ 0) :
    InImage img (din.addrs NDIRECT) := by
  have := h.own (q := NDIRECT)
  rw [ptr_direct le_rfl] at this
  exact this ha

lemma Draft.own_inj (h : Draft A i img0 img din data) {q p : Nat}
    (hq : ptr img.sect din.addrs q ≠ 0)
    (heq : ptr img.sect din.addrs q = ptr img.sect din.addrs p) : q = p := by
  have := h.ptrs.inj (i, q) (i, p)
  simp only [Xv6.ptrs, upd_same] at this
  exact congrArg Prod.snd (this hq heq)

lemma Draft.other_ne (h : Draft A i img0 img din data) {j q p : Nat} (hj : j ≠ i)
    (hq : ptr img.sect (A j) q ≠ 0) : ptr img.sect (A j) q ≠ ptr img.sect din.addrs p := by
  intro heq
  have := h.ptrs.inj (j, q) (i, p)
  simp only [Xv6.ptrs, upd_ne hj, upd_same] at this
  exact hj (congrArg Prod.fst (this hq heq))

lemma Covers.congr {A A' : Nat → Nat → Nat} {img img' : Image} (h : Covers A img)
    (hptrs : ∀ y, ptrs img'.sect A' y = ptrs img.sect A y)
    (hfree : img'.freeblock = img.freeblock) : Covers A' img' := by
  intro b hb
  obtain ⟨y, hy⟩ := h b ⟨hb.1, hfree ▸ hb.2⟩
  exact ⟨y, (hptrs y).trans hy⟩

/-- The next block is taken and gets a pointer that was none before. -/
lemma Covers.add {A A' : Nat → Nat → Nat} {img img' : Image} {x : Nat × Nat} (h : Covers A img)
    (hptrs : ∀ y, ptrs img'.sect A' y = if y = x then img.freeblock else ptrs img.sect A y)
    (h0 : ptrs img.sect A x = 0) (hfree : img'.freeblock = img.freeblock + 1) : Covers A' img' := by
  intro b hb
  have hlt : b < img.freeblock + 1 := hfree ▸ hb.2
  by_cases he : b = img.freeblock
  · exact ⟨x, by rw [hptrs, if_pos rfl, he]⟩
  · have hin : InImage img b := ⟨hb.1, by omega⟩
    obtain ⟨y, hy⟩ := h b hin
    refine ⟨y, (hptrs y).trans ?_⟩
    rw [if_neg, hy]
    rintro rfl
    exact hin.ne_zero (hy.symm.trans h0)

/-- A step of `iappend` that adds the pointer `p` to block `x`. -/
lemma Draft.add (h : Draft A i img0 img din data) {img' : Image} {din' : Dinode} {x : Nat}
    (hfresh : Fresh img') (hfree : img'.freeblock = x + 1) (hx : x = img.freeblock)
    (hinode : img'.freeinode = img.freeinode)
    (hsect : ∀ c, c ≠ din.addrs NDIRECT ∨ c = 0 → img'.sect c = img.sect c)
    (hptr : ∀ q, ptr img'.sect din'.addrs q = if q = p then x else ptr img.sect din.addrs q)
    (hp : ptr img.sect din.addrs p = 0) :
    Draft A i img0 img' din' data ∧ Extends A i (· = p) img din img' din' := by
  have hother : ∀ j q, j ≠ i → ptr img'.sect (A j) q = ptr img.sect (A j) q := fun j q hj => by
    refine ptr_congr (fun _ _ => rfl) fun hi => hsect _ (.inl ?_)
    have := h.other_ne (q := NDIRECT) (p := NDIRECT) hj (by rwa [ptr_direct le_rfl])
    rwa [ptr_direct le_rfl, ptr_direct le_rfl] at this
  have hkeep : ∀ q, ptr img.sect din.addrs q ≠ 0 →
      ptr img'.sect din'.addrs q = ptr img.sect din.addrs q := fun q hq => by
    rw [hptr, if_neg]
    rintro rfl
    exact hq hp
  have hbyte : ∀ o, HasBlock img.sect din.addrs o →
      byteAt img'.sect din'.addrs o = byteAt img.sect din.addrs o := fun o hb => by
    refine byteAt_congr (hkeep _ hb) (hsect _ (.inl fun e => ?_))
    exact posOf_ne_indirect _ (h.own_inj hb (e.trans (ptr_direct le_rfl).symm))
  have hptrs : ∀ y, Xv6.ptrs img'.sect (upd A i din'.addrs) y =
      if y = (i, p) then x else Xv6.ptrs img.sect (upd A i din.addrs) y := by
    rintro ⟨j, q⟩
    simp only [Xv6.ptrs, Prod.mk.injEq]
    by_cases hj : j = i
    · subst hj
      simp only [upd_same, hptr, true_and]
    · simp only [upd_ne hj, hother j q hj, hj, false_and, if_false]
  refine ⟨⟨⟨h.length, fun o ho => ?_, fun o ho hb => ?_⟩, hfresh, ?_, hinode.trans h.freeinode,
    fun c hc => ?_, fun j q hj => ⟨?_, fun hq => ?_⟩⟩, fun hcov => ?_, fun q hq => ?_⟩
  · obtain ⟨hb, hbo⟩ := h.bytes o ho
    refine ⟨?_, (hbyte o hb).trans hbo⟩
    unfold HasBlock at hb ⊢
    rwa [hkeep _ hb]
  · by_cases hb0 : HasBlock img.sect din.addrs o
    · exact (hbyte o hb0).trans (h.tail o ho hb0)
    · -- a block taken just now is zero
      have hpx : ptr img'.sect din'.addrs (posOf (o / BSIZE)) = x := by
        unfold HasBlock at hb hb0
        rw [hptr] at hb ⊢
        split_ifs at hb ⊢ with hpo
        · rfl
        · exact absurd hb hb0
      unfold byteAt
      rw [hpx, hsect x (.inl fun e => ?_), h.fresh.zero x (le_of_eq hx.symm)]
      · rfl
      · have hlo := h.fresh.lo
        simp only [DATASTART] at hlo
        have := (h.indirect (e ▸ by omega)).2
        omega
  · refine h.ptrs.add (x := (i, p)) (r := x) hptrs ?_ ?_ ?_
    · exact fun hin => absurd hin.2 (by omega)
    · exact fun b hb => ⟨hb.1, by have := hb.2; omega⟩
    · exact ⟨hx ▸ h.fresh.lo, by omega⟩
  · refine (hsect c ?_).trans (h.reserved c hc)
    by_cases h0 : c = 0
    · exact .inr h0
    · refine .inl fun e => ?_
      have := (h.indirect (e ▸ h0)).1
      omega
  · rw [hother j q hj, (h.others j q hj).1]
  · have hq' : ptr img.sect (A j) q ≠ 0 := by rwa [(h.others j q hj).1]
    rw [← (h.others j q hj).2 hq]
    refine hsect _ (.inl fun e => ?_)
    have := h.other_ne (p := NDIRECT) hj hq'
    rw [ptr_direct le_rfl, (h.others j q hj).1] at this
    exact this e
  · refine hcov.add (hx ▸ hptrs) ?_ (hx ▸ hfree)
    rw [Xv6.ptrs, upd_same]
    exact hp
  · rw [hptr, if_neg hq]

/-- Taking a block for an address. -/
lemma Draft.addAddr (h : Draft A i img0 img din data) (hp : p ≤ NDIRECT) (h0 : din.addrs p = 0) :
    Draft A i img0 (take img).2 { din with addrs := upd din.addrs p img.freeblock } data ∧
      Extends A i (· = p) img din (take img).2
        { din with addrs := upd din.addrs p img.freeblock } :=
  h.add (p := p) h.fresh.take rfl rfl rfl (fun _ _ => rfl)
    (fun _ => ptr_setAddr hp h0 (fun _ => rfl) fun _ _ _ =>
      congrFun (h.fresh.zero _ le_rfl) _)
    ((ptr_direct hp).trans h0)

/-- Taking a block for an entry of the indirect block. -/
lemma Draft.addEntry (h : Draft A i img0 img din data) (he : e < NINDIRECT)
    (hi : din.addrs NDIRECT ≠ 0) (h0 : (img.sect (din.addrs NDIRECT)).le (4 * e) 4 = 0)
    (hmax : img.freeblock < 2 ^ 32) :
    Draft A i img0 (wsect (take img).2 (din.addrs NDIRECT)
      ((img.sect (din.addrs NDIRECT)).putLe (4 * e) 4 img.freeblock)) din data ∧
    Extends A i (· = NDIRECT + 1 + e) img din (wsect (take img).2 (din.addrs NDIRECT)
      ((img.sect (din.addrs NDIRECT)).putLe (4 * e) 4 img.freeblock)) din := by
  have hin := h.indirect hi
  refine h.add (p := NDIRECT + 1 + e) (h.fresh.take.wsect hin.take) rfl rfl rfl (fun c hc => ?_)
    (fun q => ptr_setEntry he hi hmax ?_) ?_
  · refine upd_ne fun e => ?_
    rcases hc with hc | hc
    · exact hc e
    · exact hin.ne_zero (e.symm.trans hc)
  · exact upd_same ..
  · rw [ptr_entry he hi]
    exact h0

/-- Copying bytes into the last block of the file. -/
lemma Draft.append (h : Draft A i img0 img din data) {w : List Byte}
    (hb : HasBlock img.sect din.addrs data.length) (hw : data.length % BSIZE + w.length ≤ BSIZE)
    (hmax : data.length + w.length ≤ SMALLFILE * BSIZE) :
    Draft A i img0 (wsect img (ptr img.sect din.addrs (posOf (data.length / BSIZE)))
      ((img.sect (ptr img.sect din.addrs (posOf (data.length / BSIZE)))).splice
        (data.length % BSIZE) w)) din (data ++ w) ∧
    Extends A i (fun _ => False) img din
      (wsect img (ptr img.sect din.addrs (posOf (data.length / BSIZE)))
      ((img.sect (ptr img.sect din.addrs (posOf (data.length / BSIZE)))).splice
        (data.length % BSIZE) w)) din := by
  set x := ptr img.sect din.addrs (posOf (data.length / BSIZE)) with hx
  set bp := (img.sect x).splice (data.length % BSIZE) w with hbp
  have hin : InImage img x := h.own hb
  have hsect : ∀ c, c ≠ x → (wsect img x bp).sect c = img.sect c := fun c hc => upd_ne hc
  have hown : ∀ q, ptr (wsect img x bp).sect din.addrs q = ptr img.sect din.addrs q := fun q => by
    refine ptr_congr (fun _ _ => rfl) fun hi => hsect _ fun e => ?_
    exact posOf_ne_indirect _ (h.own_inj hb (hx.symm.trans (e.symm.trans (ptr_direct le_rfl).symm)))
  have hother : ∀ j q, j ≠ i → ptr (wsect img x bp).sect (A j) q = ptr img.sect (A j) q :=
    fun j q hj => by
    refine ptr_congr (fun _ _ => rfl) fun hi => hsect _ ?_
    have := h.other_ne (q := NDIRECT) (p := posOf (data.length / BSIZE)) hj
      (by rwa [ptr_direct le_rfl])
    rwa [ptr_direct le_rfl] at this
  have hptrs : ∀ y, Xv6.ptrs (wsect img x bp).sect (upd A i din.addrs) y =
      Xv6.ptrs img.sect (upd A i din.addrs) y := by
    rintro ⟨j, q⟩
    simp only [Xv6.ptrs]
    by_cases hj : j = i
    · subst hj
      rw [upd_same, hown]
    · rw [upd_ne hj, hother j q hj]
  refine ⟨⟨⟨?_, fun o ho => ?_, fun o ho hbo => ?_⟩, h.fresh.wsect hin, h.ptrs.congr hptrs,
    h.freeinode, fun c hc => ?_, fun j q hj => ⟨?_, fun hq => ?_⟩⟩, fun hcov =>
      hcov.congr hptrs rfl,
    fun q _ => hown q⟩
  · rw [length_append]
    exact hmax
  · rw [length_append] at ho
    unfold HasBlock
    rw [hown]
    by_cases hblk : o / BSIZE = data.length / BSIZE
    · rw [hblk]
      refine ⟨hb, ?_⟩
      unfold byteAt
      rw [hown, hblk, ← hx]
      change upd img.sect x bp x (o % BSIZE) = _
      rw [upd_same, hbp, Bytes.splice]
      rcases Nat.lt_or_ge o data.length with hlt | hge
      · rw [if_neg (by simp only [BSIZE] at *; omega), getD_append _ _ _ _ hlt,
          ← (h.bytes o hlt).2, byteAt, hblk]
      · rw [if_pos (by simp only [BSIZE] at *; omega), getD_append_right _ _ _ _ hge]
        congr 1
        simp only [BSIZE] at *
        omega
    · have hlt : o < data.length := by simp only [BSIZE] at *; omega
      obtain ⟨hbo, hbyte⟩ := h.bytes o hlt
      refine ⟨hbo, (byteAt_congr (hown _) (hsect _ fun e => hblk ?_)).trans
        (hbyte.trans (getD_append _ _ _ _ hlt).symm)⟩
      exact posOf_inj (h.own_inj hbo (e.trans hx))
  · rw [length_append] at ho
    unfold HasBlock at hbo
    rw [hown] at hbo
    refine Eq.trans ?_ (h.tail o (by omega) hbo)
    unfold byteAt
    rw [hown]
    by_cases hblk : o / BSIZE = data.length / BSIZE
    · rw [hblk, ← hx]
      change upd img.sect x bp x (o % BSIZE) = _
      rw [upd_same, hbp, Bytes.splice, if_neg (by simp only [BSIZE] at *; omega)]
    · refine congrFun (hsect _ fun e => hblk ?_) _
      exact posOf_inj (h.own_inj hbo (e.trans hx))
  · refine (hsect c fun e => ?_).trans (h.reserved c hc)
    have := hin.1
    omega
  · rw [hother j q hj, (h.others j q hj).1]
  · have hq' : ptr img.sect (A j) q ≠ 0 := by rwa [(h.others j q hj).1]
    rw [← (h.others j q hj).2 hq]
    refine hsect _ ?_
    have := h.other_ne (p := posOf (data.length / BSIZE)) hj hq'
    rwa [(h.others j q hj).1] at this

end Draft

/-! ### `iappend` -/

section Iappend

variable {A : Nat → Nat → Nat} {i fbn x off off' : Nat} {img0 img img' : Image}
  {din din' : Dinode} {data xp : List Byte}

/-- The fields of a disk inode that `iappend` does not change. -/
def SameKind (din din' : Dinode) : Prop :=
  din'.type = din.type ∧ din'.major = din.major ∧ din'.minor = din.minor ∧ din'.nlink = din.nlink

lemma SameKind.refl (din : Dinode) : SameKind din din := ⟨rfl, rfl, rfl, rfl⟩

lemma SameKind.trans {d d' d'' : Dinode} (h : SameKind d d') (h' : SameKind d' d'') :
    SameKind d d'' :=
  ⟨h'.1.trans h.1, h'.2.1.trans h.2.1, h'.2.2.1.trans h.2.2.1, h'.2.2.2.trans h.2.2.2⟩

lemma some_triple {α β γ : Type} {a a' : α} {b b' : β} {c c' : γ}
    (h : some (a, b, c) = some (a', b', c')) : a = a' ∧ b = b' ∧ c = c' := by
  obtain ⟨h1, h2⟩ := Prod.mk.inj (Option.some.inj h)
  exact ⟨h1, Prod.mk.inj h2⟩

/-- The end of `iappendBlock`: the entry of the indirect block, taken if it is missing. -/
lemma Draft.entryBlock (h : Draft A i img0 img din data) (hfbn : ¬ fbn < NDIRECT)
    (he : fbn - NDIRECT < NINDIRECT) (hi : din.addrs NDIRECT ≠ 0)
    (hr : (if (img.sect (din.addrs NDIRECT)).le (4 * (fbn - NDIRECT)) 4 = 0 then
        some (img.freeblock, din, Mkfs.wsect (Mkfs.take img).2 (din.addrs NDIRECT)
          ((img.sect (din.addrs NDIRECT)).putLe (4 * (fbn - NDIRECT)) 4 img.freeblock))
      else some ((img.sect (din.addrs NDIRECT)).le (4 * (fbn - NDIRECT)) 4, din, img)) =
        some (x, din', img')) (hmax : img'.freeblock < 2 ^ 32) :
    (Draft A i img0 img' din' data ∧ Extends A i (· = posOf fbn) img din img' din') ∧
      ptr img'.sect din'.addrs (posOf fbn) = x ∧ x ≠ 0 ∧ din' = din := by
  split_ifs at hr with hz <;> obtain ⟨rfl, rfl, rfl⟩ := some_triple hr
  · have hlt : img.freeblock < 2 ^ 32 := Nat.lt_of_succ_lt hmax
    refine ⟨?_, ?_, ?_, rfl⟩
    · rw [posOf_indirect hfbn]
      exact h.addEntry he hi hz hlt
    · rw [posOf_indirect hfbn]
      exact (@ptr_setEntry img.sect _ _ _ _ _ he hi hlt (upd_same ..)).trans (if_pos rfl)
    · have := h.fresh.lo
      simp only [DATASTART] at this
      omega
  · refine ⟨⟨h, Extends.refl⟩, ?_, hz, rfl⟩
    rw [posOf_indirect hfbn, ptr_entry he hi]

/-- `iappendBlock` finds the block of `fbn`, or takes it and its indirect block. -/
lemma Draft.iappendBlock (h : Draft A i img0 img din data)
    (hr : iappendBlock img din fbn = some (x, din', img')) (hmax : img'.freeblock < 2 ^ 32) :
    fbn < SMALLFILE ∧ (Draft A i img0 img' din' data ∧
      Extends A i (fun q => q = posOf fbn ∨ q = NDIRECT) img din img' din') ∧
      ptr img'.sect din'.addrs (posOf fbn) = x ∧ x ≠ 0 ∧ SameKind din din' := by
  have hpos : img.freeblock ≠ 0 := by
    have := h.fresh.lo
    simp only [DATASTART] at this
    omega
  unfold Mkfs.iappendBlock at hr
  by_cases h1 : MAXFILE ≤ fbn
  · rw [if_pos h1] at hr
    exact absurd hr (by simp)
  rw [if_neg h1] at hr
  by_cases h2 : fbn < NDIRECT
  · rw [if_pos h2] at hr
    refine ⟨by unfold SMALLFILE; omega, ?_⟩
    split_ifs at hr with h3 <;> obtain ⟨rfl, rfl, rfl⟩ := some_triple hr
    · obtain ⟨hd, he⟩ := h.addAddr (Nat.le_of_lt h2) h3
      refine ⟨⟨hd, he.trans Extends.refl (fun q hq => .inl ?_) fun q hq => hq⟩, ?_, hpos,
        SameKind.refl _⟩
      · rw [hq, posOf, if_pos h2]
      · rw [ptr_posOf_direct h2]
        exact upd_same ..
    · exact ⟨⟨h, Extends.refl⟩, ptr_posOf_direct h2, h3, SameKind.refl _⟩
  rw [if_neg h2] at hr
  by_cases h4 : NINDIRECT ≤ fbn - NDIRECT
  · rw [if_pos h4] at hr
    exact absurd hr (by simp)
  rw [if_neg h4] at hr
  have he : fbn - NDIRECT < NINDIRECT := Nat.lt_of_not_le h4
  refine ⟨by unfold SMALLFILE; omega, ?_⟩
  by_cases h0 : din.addrs NDIRECT = 0
  · rw [if_pos h0] at hr
    have hnew : upd din.addrs NDIRECT img.freeblock NDIRECT = img.freeblock := upd_same ..
    obtain ⟨ha, hca⟩ := h.addAddr le_rfl h0
    obtain ⟨⟨hd, hcd⟩, hx, hx0, rfl⟩ := ha.entryBlock h2 he
      (hnew.trans_ne hpos) (by simp only [hnew]; exact hr) hmax
    exact ⟨⟨hd, hca.trans hcd (fun _ => .inr) fun _ => .inl⟩, hx, hx0, SameKind.refl _⟩
  · rw [if_neg h0] at hr
    obtain ⟨⟨hd, hcd⟩, hx, hx0, rfl⟩ := h.entryBlock h2 he h0 hr hmax
    exact ⟨⟨hd, hcd.trans Extends.refl (fun _ => .inl) fun _ hq => hq⟩, hx, hx0, SameKind.refl _⟩

/-- The two counters of `mkfs` advance together. -/
def Advances (img img' : Image) : Prop :=
  img.freeblock ≤ img'.freeblock ∧
    img'.usedblocks + img.freeblock = img.usedblocks + img'.freeblock

lemma Advances.refl (img : Image) : Advances img img := ⟨le_rfl, rfl⟩

lemma Advances.trans {img img' img'' : Image} (h : Advances img img') (h' : Advances img' img'') :
    Advances img img'' := by
  have := h.1
  have := h.2
  have := h'.1
  have := h'.2
  exact ⟨by omega, by omega⟩

lemma advances_take (img : Image) : Advances img (take img).2 :=
  ⟨Nat.le_succ _, by simp only [take]; omega⟩

lemma advances_iappendBlock (hr : Mkfs.iappendBlock img din fbn = some (x, din', img')) :
    Advances img img' := by
  unfold Mkfs.iappendBlock at hr
  split at hr
  · exact absurd hr (by simp)
  split at hr
  · split at hr <;> obtain ⟨-, -, rfl⟩ := some_triple hr
    exacts [advances_take _, Advances.refl _]
  split at hr
  · exact absurd hr (by simp)
  by_cases h0 : din.addrs NDIRECT = 0
  · simp only [if_pos h0, Mkfs.take] at hr
    split at hr <;> obtain ⟨-, -, rfl⟩ := some_triple hr
    exacts [(advances_take _).trans (advances_take _), advances_take _]
  · simp only [if_neg h0, Mkfs.take] at hr
    split at hr <;> obtain ⟨-, -, rfl⟩ := some_triple hr
    exacts [advances_take _, Advances.refl _]

lemma advances_iappendLoop {fuel : Nat} :
    ∀ {img : Image} {din : Dinode} {off : Nat} {xp : List Byte},
      iappendLoop img din off xp fuel = some (din', off', img') → Advances img img' := by
  induction fuel with
  | zero =>
    intro img din off xp hr
    obtain ⟨-, -, rfl⟩ := some_triple hr
    exact Advances.refl _
  | succ fuel ih =>
    intro img din off xp hr
    unfold iappendLoop at hr
    split at hr
    · obtain ⟨-, -, rfl⟩ := some_triple hr
      exact Advances.refl _
    · cases hb : Mkfs.iappendBlock img din (off / 512) with
      | none => simp [hb] at hr
      | some r =>
        obtain ⟨x, din1, img1⟩ := r
        simp only [hb] at hr
        have hadv := ih hr
        exact (advances_iappendBlock hb).trans hadv

/-- The loop of `iappend` appends its bytes. -/
lemma Draft.iappendLoop {fuel : Nat} :
    ∀ {img : Image} {din : Dinode} {data xp : List Byte}, Draft A i img0 img din data →
      xp.length ≤ fuel →
      iappendLoop img din data.length xp fuel = some (din', off', img') →
      img'.freeblock < 2 ^ 32 →
      (Draft A i img0 img' din' (data ++ xp) ∧
        (Covers (upd A i din.addrs) img → Covers (upd A i din'.addrs) img') ∧
        (NoMore img.sect din.addrs data.length →
          NoMore img'.sect din'.addrs (data ++ xp).length)) ∧
        off' = data.length + xp.length ∧ SameKind din din' := by
  induction fuel with
  | zero =>
    intro img din data xp h hfuel hr _
    obtain rfl : xp = [] := length_eq_zero_iff.mp (by omega)
    obtain ⟨rfl, rfl, rfl⟩ := some_triple hr
    rw [append_nil]
    exact ⟨⟨h, id, id⟩, rfl, SameKind.refl _⟩
  | succ fuel ih =>
    intro img din data xp h hfuel hr hmax
    unfold Mkfs.iappendLoop at hr
    by_cases h0 : xp.length = 0
    · rw [if_pos h0] at hr
      obtain rfl : xp = [] := length_eq_zero_iff.mp h0
      obtain ⟨rfl, rfl, rfl⟩ := some_triple hr
      rw [append_nil]
      exact ⟨⟨h, id, id⟩, rfl, SameKind.refl _⟩
    rw [if_neg h0] at hr
    cases hb : Mkfs.iappendBlock img din (data.length / 512) with
    | none => simp [hb] at hr
    | some r =>
      obtain ⟨x, din1, img1⟩ := r
      simp only [hb] at hr
      set n1 := min xp.length ((data.length / 512 + 1) * 512 - data.length) with hn1
      have hle := (advances_iappendLoop hr).1
      change img1.freeblock ≤ img'.freeblock at hle
      obtain ⟨hsmall, ⟨hd1, hc1⟩, hx, hx0, hkind⟩ := h.iappendBlock hb (by omega)
      have hlen : (xp.take n1).length = n1 := by rw [length_take]; omega
      have hmod : data.length - data.length / 512 * 512 = data.length % BSIZE := by
        simp only [BSIZE]
        omega
      obtain ⟨hd2, hc2⟩ := hd1.append (w := xp.take n1) (by
        unfold HasBlock
        rw [show data.length / BSIZE = data.length / 512 from rfl, hx]
        exact hx0) (by
        rw [hlen]
        simp only [BSIZE]
        omega) (by
        rw [hlen]
        simp only [SMALLFILE, NDIRECT, NINDIRECT, BSIZE] at *
        omega)
      rw [show data.length / BSIZE = data.length / 512 from rfl, hx] at hd2 hc2
      rw [hmod] at hr
      have hpos : data.length + n1 = (data ++ xp.take n1).length := by
        rw [length_append, hlen]
      rw [hpos] at hr
      obtain ⟨⟨hd', hc', hm'⟩, hoff', hkind'⟩ := ih hd2 (by rw [length_drop]; omega) hr hmax
      have hmore : NoMore img.sect din.addrs data.length →
          NoMore (Mkfs.wsect img1 x ((img1.sect x).splice (data.length % BSIZE) (xp.take n1))).sect
            din1.addrs (data ++ xp.take n1).length := by
        intro hm bn hbn
        have hne : bn ≠ data.length / 512 := by
          rw [← hpos] at hbn
          simp only [BSIZE] at hbn
          omega
        rw [hc2.ptr _ not_false, hc1.ptr _ (by
          rintro (hq | hq)
          · exact hne (posOf_inj hq)
          · exact posOf_ne_indirect _ hq)]
        refine hm bn (Nat.le_trans ?_ hbn)
        omega
      rw [append_assoc, take_append_drop] at hd' hm'
      refine ⟨⟨hd', fun hc => hc' (hc2.covers (hc1.covers hc)), fun hm => hm' (hmore hm)⟩, ?_,
        hkind.trans hkind'⟩
      rw [hoff', ← hpos, length_drop]
      omega

end Iappend

/-! ### Inodes of the image -/

/-- Inodes that fit in the inode blocks, which hold a few more than `ninodes`. -/
def INODEROOM : Nat := 208

/-- Inode `i` of a disk stands for the node `N`. -/
structure Stored (sect : Nat → Bytes) (i : Nat) (N : Node) : Prop
    extends Contents sect (dinode sect i).addrs N.data where
  type : (dinode sect i).type = N.type
  major : (dinode sect i).major = N.major
  minor : (dinode sect i).minor = N.minor
  nlink : (dinode sect i).nlink = N.nlink
  size : (dinode sect i).size = N.data.length
  used : N.type ≠ 0

/-- The addresses of the inodes that have been handed out. -/
def imgAddrs (img : Image) (i : Nat) : Nat → Nat :=
  if 1 ≤ i ∧ i < img.freeinode then (dinode img.sect i).addrs else fun _ => 0

/-- What holds of the image between two calls: it has the nodes `F`. -/
structure Packed (img : Image) (F : Nat → Node) : Prop where
  fresh : Fresh img
  pos : 1 ≤ img.freeinode
  le : img.freeinode ≤ INODEROOM
  free : ∀ i, img.freeinode ≤ i → i < INODEROOM → (dinode img.sect i).type = 0
  ptrs : Pointers (ptrs img.sect (imgAddrs img)) (InImage img)
  file : ∀ i, 1 ≤ i → i < img.freeinode → Stored img.sect i (F i)
  none : ∀ i, ¬(1 ≤ i ∧ i < img.freeinode) → F i = {}

/-- Every block handed out belongs to an inode, and an inode has no more blocks than it needs. -/
structure Filled (img : Image) (F : Nat → Node) : Prop where
  covers : Covers (imgAddrs img) img
  noMore : ∀ i, 1 ≤ i → i < img.freeinode →
    NoMore img.sect (dinode img.sect i).addrs (F i).data.length

/-- The same, but for inode `i`. -/
structure PackedBut (i : Nat) (img : Image) (F : Nat → Node) : Prop where
  pos : 1 ≤ img.freeinode
  le : img.freeinode ≤ INODEROOM
  free : ∀ j, img.freeinode ≤ j → j < INODEROOM → (dinode img.sect j).type = 0
  data : ∀ j q, j ≠ i → ptr img.sect (imgAddrs img j) q ≠ 0 →
    DATASTART ≤ ptr img.sect (imgAddrs img j) q
  file : ∀ j, j ≠ i → 1 ≤ j → j < img.freeinode → Stored img.sect j (F j)
  none : ∀ j, ¬(1 ≤ j ∧ j < img.freeinode) → F j = {}

/-- The same for the inodes that the kernel counts. -/
structure Built (img : Image) : Prop where
  fresh : Fresh img
  pos : 1 ≤ img.freeinode
  le : img.freeinode ≤ NINODES
  free : ∀ i, img.freeinode ≤ i → i < NINODES → (dinode img.sect i).type = 0
  ptrs : Pointers (ptrs img.sect (diskAddrs img.sect)) (InImage img)
  size : ∀ i, live img.sect i = true → (dinode img.sect i).size ≤ SMALLFILE * BSIZE
  mapped : ∀ i, live img.sect i = true → ∀ o < (dinode img.sect i).size,
    HasBlock img.sect (dinode img.sect i).addrs o
  tail : ∀ i, live img.sect i = true → ∀ o, (dinode img.sect i).size ≤ o →
    HasBlock img.sect (dinode img.sect i).addrs o → byteAt img.sect (dinode img.sect i).addrs o = 0

section Winode

variable {A : Nat → Nat → Nat} {i j : Nat} {img0 img img' : Image} {d din : Dinode}
  {data xp : List Byte}

/-- The numbers of a disk inode fit their fields. -/
def FitsDisk (d : Dinode) : Prop := d.size < 2 ^ 32 ∧ ∀ p ≤ NDIRECT, d.addrs p < 2 ^ 32

/-- `winode` stores one inode, and the other inodes stay. -/
lemma dinode_winode (h : FitsDisk d) :
    dinode (winode img i d).sect j =
      if j = i then { d with addrs := cutAddrs d.addrs } else dinode img.sect j := by
  have hd : DINODESIZE = 64 := rfl
  let ip : Inode :=
    { type := d.type, major := d.major, minor := d.minor, nlink := d.nlink, size := d.size,
      addrs := d.addrs }
  -- beyond what `iupdate` stores, `winode` stores the last address
  have hstore : storeDinode (img.sect (i2b i)) (i % IPB) d =
      (putDinode (img.sect (i2b i)) (i % IPB) ip).putLe
        (DINODESIZE * (i % IPB) + 12 + 4 * (NDIRECT + 1)) 4 (d.addrs (NDIRECT + 1)) := rfl
  refine @dinode_upd img.sect i j _ _ ?_ fun o l ho => ?_
  · rw [hstore]
    refine (getDinode_congr fun o l _ h2 => ?_).trans 
      (@getDinode_putDinode (img.sect (i2b i)) (i % IPB) ip h)
    exact Bytes.le_putLe_of_disjoint (.inl (by simp only [NDIRECT]; omega))
  · rw [hstore, Bytes.le_putLe_of_disjoint (by simp only [NDIRECT]; omega)]
    exact putDinode_of_not ho

lemma winode_sect_ne {c : Nat} (hc : c ≠ IBLOCK i) : (winode img i d).sect c = img.sect c :=
  upd_ne hc

/-- A node stays when its inode and its blocks do. -/
lemma Stored.congr {sect sect' : Nat → Bytes} {N : Node} (h : Stored sect i N)
    (hdin : dinode sect' i = dinode sect i)
    (hptr : ∀ q, ptr sect' (dinode sect i).addrs q = ptr sect (dinode sect i).addrs q)
    (hblock : ∀ q, ptr sect (dinode sect i).addrs q ≠ 0 →
      sect' (ptr sect (dinode sect i).addrs q) = sect (ptr sect (dinode sect i).addrs q)) :
    Stored sect' i N :=
  ⟨hdin ▸ h.toContents.congr hptr hblock, hdin ▸ h.type, hdin ▸ h.major, hdin ▸ h.minor,
    hdin ▸ h.nlink, hdin ▸ h.size, h.used⟩

lemma IBLOCK_room {i : Nat} (hi : i < INODEROOM) : IBLOCK i < BITSTART := by
  rw [IBLOCK_eq]
  simp only [INODEROOM, BITSTART] at *
  omega

lemma winode_data {c : Nat} (hi : i < INODEROOM) (hc : DATASTART ≤ c) :
    (winode img i d).sect c = img.sect c :=
  winode_sect_ne fun e => by
    have := IBLOCK_room hi
    simp only [BITSTART, DATASTART] at *
    omega

lemma Fresh.winode (h : Fresh img) (hi : i < INODEROOM) : Fresh (winode img i d) := by
  refine ⟨h.counters, h.lo, ?_, fun b hb => ?_, fun b hb => ?_⟩
  · exact (winode_sect_ne (by rw [IBLOCK_eq]; omega)).trans h.super
  · refine (winode_sect_ne fun e => ?_).trans (h.bitmap b hb)
    exact absurd (e ▸ hb.1) (Nat.not_le.mpr (IBLOCK_room hi))
  · exact (winode_data hi (h.lo.trans hb)).trans (h.zero b hb)

/-! ### The end of `iappend`

The inode of a draft is written back, with the number of its bytes as its size. -/

section Packed

variable {F : Nat → Node}

/-- The inode of a draft as `iappend` writes it. -/
abbrev closed (din : Dinode) (data : List Byte) : Dinode := { din with size := data.length }

lemma Draft.fitsDisk (h : Draft A i img0 img din data) (hmax : img.freeblock < 2 ^ 32) :
    FitsDisk (closed din data) := by
  refine ⟨h.length.trans_lt (by decide), fun p hp => ?_⟩
  change din.addrs p < 2 ^ 32
  by_cases h0 : din.addrs p = 0
  · exact h0.symm ▸ by decide
  · have := (h.own (q := p) (by rwa [ptr_direct hp])).2
    rw [ptr_direct hp] at this
    exact this.trans hmax

lemma Draft.dinode_winode (h : Draft A i img0 img din data) (hmax : img.freeblock < 2 ^ 32)
    (hj : j < INODEROOM) : dinode (winode img i (closed din data)).sect j =
      if j = i then { closed din data with addrs := cutAddrs din.addrs }
      else dinode img0.sect j := by
  have hsame : dinode img.sect j = dinode img0.sect j :=
    dinode_congr (h.reserved _ ((IBLOCK_room hj).trans (by decide)))
  rw [Mkfs.dinode_winode (h.fitsDisk hmax), hsame]

/-- The pointers of the inode itself. -/
lemma Draft.ptr_own (h : Draft A i img0 img din data) (hi : i < INODEROOM) (q : Nat) :
    ptr (winode img i d).sect (cutAddrs din.addrs) q = ptr img.sect din.addrs q :=
  (ptr_cutAddrs ..).trans
    (ptr_congr (fun _ _ => rfl) fun h0 => winode_data hi (h.indirect h0).1)

/-- The pointers of another inode. -/
lemma Draft.ptr_other (h : Draft (imgAddrs img0) i img0 img din data) (h₀ : PackedBut i img0 F)
    (hi : i < INODEROOM) (hj : j ≠ i) (q : Nat) :
    ptr (winode img i d).sect (imgAddrs img0 j) q = ptr img0.sect (imgAddrs img0 j) q := by
  refine (ptr_congr (fun _ _ => rfl) fun h0 => winode_data hi ?_).trans (h.others j q hj).1
  have := h₀.data j NDIRECT hj
  rw [ptr_direct le_rfl] at this
  exact this h0

lemma Draft.ptrs_winode (h : Draft (imgAddrs img0) i img0 img din data) (h₀ : PackedBut i img0 F)
    (hpos : 1 ≤ i) (hlt : i < img0.freeinode) (hmax : img.freeblock < 2 ^ 32) (y : Nat × Nat) :
    Xv6.ptrs (winode img i (closed din data)).sect (imgAddrs (winode img i (closed din data))) y =
      Xv6.ptrs img.sect (upd (imgAddrs img0) i din.addrs) y := by
  have hi : i < INODEROOM := hlt.trans_le h₀.le
  have hfree : (winode img i (closed din data)).freeinode = img0.freeinode := h.freeinode
  obtain ⟨j, q⟩ := y
  simp only [Xv6.ptrs]
  by_cases hj : j = i
  · subst hj
    rw [upd_same, imgAddrs, hfree, if_pos ⟨hpos, hlt⟩, h.dinode_winode hmax hi, if_pos rfl]
    exact h.ptr_own hi q
  · have hsame : imgAddrs (winode img i (closed din data)) j = imgAddrs img0 j := by
      unfold imgAddrs
      rw [hfree]
      split_ifs with hr
      · rw [h.dinode_winode hmax (hr.2.trans_le h₀.le), if_neg hj]
      · rfl
    rw [upd_ne hj, hsame, h.ptr_other h₀ hi hj, (h.others j q hj).1]

/-- The inode that was written back stands for the bytes of the draft. -/
lemma Draft.stored_own (h : Draft A i img0 img din data) (hi : i < INODEROOM)
    (hmax : img.freeblock < 2 ^ 32) (htype : din.type ≠ 0) :
    Stored (winode img i (closed din data)).sect i
      ⟨din.type, din.major, din.minor, din.nlink, data⟩ := by
  have hdin := h.dinode_winode hmax hi
  rw [if_pos rfl] at hdin
  refine ⟨?_, by rw [hdin], by rw [hdin], by rw [hdin], by rw [hdin], by rw [hdin], htype⟩
  rw [hdin]
  exact h.toContents.congr (h.ptr_own hi) fun q hq => winode_data hi (h.own hq).1

/-- The other inodes stand for what they stood for. -/
lemma Draft.stored_other (h : Draft (imgAddrs img0) i img0 img din data) (h₀ : PackedBut i img0 F)
    (hi : i < INODEROOM) (hmax : img.freeblock < 2 ^ 32) (hj : j ≠ i) (hj1 : 1 ≤ j)
    (hjn : j < img0.freeinode) : Stored (winode img i (closed din data)).sect j (F j) := by
  have haddr : imgAddrs img0 j = (dinode img0.sect j).addrs := if_pos ⟨hj1, hjn⟩
  refine (h₀.file j hj hj1 hjn).congr ?_ ?_ ?_
  · rw [h.dinode_winode hmax (hjn.trans_le h₀.le), if_neg hj]
  · rw [← haddr]
    exact h.ptr_other h₀ hi hj
  · rw [← haddr]
    exact fun q hq => (winode_data hi (h₀.data j q hj hq)).trans ((h.others j q hj).2 hq)

/-- A draft whose inode is written back is a finished image. -/
lemma Draft.packed (h : Draft A i img0 img din data) (hA : A = imgAddrs img0)
    (h₀ : PackedBut i img0 F) (hpos : 1 ≤ i) (hlt : i < img0.freeinode) (htype : din.type ≠ 0)
    (hmax : img.freeblock < 2 ^ 32) :
    Packed (winode img i { din with size := data.length })
      (upd F i ⟨din.type, din.major, din.minor, din.nlink, data⟩) ∧
    (Covers (upd A i din.addrs) img → NoMore img.sect din.addrs data.length →
      (∀ j, j ≠ i → 1 ≤ j → j < img0.freeinode →
        NoMore img0.sect (dinode img0.sect j).addrs (F j).data.length) →
      Filled (winode img i { din with size := data.length })
        (upd F i ⟨din.type, din.major, din.minor, din.nlink, data⟩)) := by
  subst hA
  have hi : i < INODEROOM := hlt.trans_le h₀.le
  have hfree : (winode img i (closed din data)).freeinode = img0.freeinode := h.freeinode
  have hptrs := h.ptrs_winode h₀ hpos hlt hmax
  refine ⟨⟨h.fresh.winode hi, h.freeinode.symm ▸ h₀.pos, h.freeinode.symm ▸ h₀.le,
    fun j hj hjn => ?_, (h.ptrs.congr hptrs).mono fun b hb => hb, fun j hj hjn => ?_,
      fun j hj => ?_⟩,
    fun hcov hown hothers => ⟨hcov.congr hptrs rfl, fun j hj hjn bn hbn => ?_⟩⟩
  · rw [hfree] at hj
    refine Eq.trans ?_ (h₀.free j hj hjn)
    exact congrArg Dinode.type ((h.dinode_winode hmax hjn).trans (if_neg (by omega)))
  · by_cases hji : j = i
    · rw [hji, upd_same]
      exact h.stored_own hi hmax htype
    · rw [upd_ne hji]
      exact h.stored_other h₀ hi hmax hji hj (hfree ▸ hjn)
  · rw [hfree] at hj
    have hji : j ≠ i := fun e => hj (e ▸ ⟨hpos, hlt⟩)
    rw [upd_ne hji]
    exact h₀.none j hj
  · rw [hfree] at hjn
    by_cases hji : j = i
    · subst hji
      rw [upd_same] at hbn
      rw [h.dinode_winode hmax hi, if_pos rfl]
      exact (h.ptr_own hi _).trans (hown bn hbn)
    · rw [upd_ne hji] at hbn
      have haddr : imgAddrs img0 j = (dinode img0.sect j).addrs := if_pos ⟨hj, hjn⟩
      rw [h.dinode_winode hmax (hjn.trans_le h₀.le), if_neg hji, ← haddr,
        h.ptr_other h₀ hi hji, haddr]
      exact hothers j hji hj hjn bn hbn

end Packed

lemma Packed.but {F : Nat → Node} (h : Packed img F) : PackedBut i img F :=
  ⟨h.pos, h.le, h.free, fun j q _ hq => (h.ptrs.valid (j, q) hq).1, fun j _ => h.file j, h.none⟩

lemma Packed.own {F : Nat → Node} (h : Packed img F) (hpos : 1 ≤ i) (hlt : i < img.freeinode)
    {q : Nat} (hq : ptr img.sect (dinode img.sect i).addrs q ≠ 0) :
    InImage img (ptr img.sect (dinode img.sect i).addrs q) := by
  have := h.ptrs.valid (i, q)
  simp only [Xv6.ptrs, imgAddrs, if_pos (And.intro hpos hlt)] at this
  exact this hq

/-- The copy of an inode fits the disk with any size. -/
lemma Packed.fitsDisk {F : Nat → Node} (h : Packed img F) (hpos : 1 ≤ i) (hlt : i < img.freeinode)
    (hmax : img.freeblock < 2 ^ 32) {n : Nat} (hn : n < 2 ^ 32) :
    FitsDisk { rinode img i with size := n } := by
  refine ⟨hn, fun p hp => ?_⟩
  change (rinode img i).addrs p < 2 ^ 32
  by_cases h0 : (rinode img i).addrs p = 0
  · rw [h0]
    decide
  · have h1 : ptr img.sect (dinode img.sect i).addrs p = (rinode img i).addrs p := by
      rw [ptr_direct hp]
      exact cutAddrs_of_le hp
    rw [← h1] at h0 ⊢
    exact (h.own hpos hlt h0).2.trans hmax

/-- A copy of an inode of the image is the start of a draft. -/
lemma Packed.draft {F : Nat → Node} (h : Packed img F) (hpos : 1 ≤ i) (hlt : i < img.freeinode) :
    Draft (imgAddrs img) i img img (rinode img i) (F i).data ∧
      (Filled img F → Covers (upd (imgAddrs img) i (rinode img i).addrs) img ∧
        NoMore img.sect (rinode img i).addrs (F i).data.length) := by
  have hptr : ∀ p, ptr img.sect (rinode img i).addrs p =
      ptr img.sect (dinode img.sect i).addrs p := fun p => (ptr_cutAddrs ..).symm
  have hptrs : ∀ y, Xv6.ptrs img.sect (upd (imgAddrs img) i (rinode img i).addrs) y =
      Xv6.ptrs img.sect (imgAddrs img) y := by
    rintro ⟨j, p⟩
    simp only [Xv6.ptrs]
    by_cases hj : j = i
    · subst hj
      rw [upd_same, imgAddrs, if_pos ⟨hpos, hlt⟩, hptr]
    · rw [upd_ne hj]
  exact ⟨⟨(h.file i hpos hlt).toContents.congr hptr fun _ _ => rfl, h.fresh,
    h.ptrs.congr hptrs, rfl,
    fun _ _ => rfl, fun _ _ _ => ⟨rfl, fun _ => rfl⟩⟩, fun hf => ⟨hf.covers.congr hptrs rfl,
    fun bn hbn => (hptr _).trans (hf.noMore i hpos hlt bn hbn)⟩⟩

/-- The inodes that the kernel counts. -/
lemma Packed.built {F : Nat → Node} (h : Packed img F) (hle : img.freeinode ≤ NINODES) :
    Built img ∧ node img.sect = F := by
  have hlive : ∀ j, live img.sect j = true ↔ 1 ≤ j ∧ j < img.freeinode := fun j => by
    rw [live_iff]
    constructor
    · rintro ⟨h1, h2, h3⟩
      refine ⟨h1, ?_⟩
      by_contra hge
      exact h3 (h.free j (by omega) (h2.trans (by decide)))
    · rintro ⟨h1, h2⟩
      have hs := h.file j h1 h2
      exact ⟨h1, h2.trans_le hle, hs.type ▸ hs.used⟩
  have hA : diskAddrs img.sect = imgAddrs img := funext fun j => by
    unfold diskAddrs imgAddrs
    by_cases hj : 1 ≤ j ∧ j < img.freeinode
    · rw [if_pos hj, if_pos ((hlive j).mpr hj)]
    · rw [if_neg hj, if_neg fun hl => hj ((hlive j).mp hl)]
  have hfile : ∀ j, live img.sect j = true → Stored img.sect j (F j) := fun j hj =>
    h.file j ((hlive j).mp hj).1 ((hlive j).mp hj).2
  refine ⟨⟨h.fresh, h.pos, hle, fun j h1 h2 => h.free j h1 (h2.trans (by decide)), hA ▸ h.ptrs,
    fun j hj => ?_, fun j hj o ho => ?_, fun j hj o ho hb => ?_⟩, funext fun j => ?_⟩
  · rw [(hfile j hj).size]
    exact (hfile j hj).length
  · rw [(hfile j hj).size] at ho
    exact ((hfile j hj).bytes o ho).1
  · rw [(hfile j hj).size] at ho
    exact (hfile j hj).tail o ho hb
  · cases hl : live img.sect j with
    | false =>
      rw [node_of_free hl, h.none j fun hj => ?_]
      rw [(hlive j).mpr hj] at hl
      cases hl
    | true =>
      have hs := hfile j hl
      rw [node_of_live hl, hs.type, hs.major, hs.minor, hs.nlink]
      have hdata : fileData img.sect (dinode img.sect j) = (F j).data := by
        refine ext_getElem (by rw [length_fileData, hs.size]) fun o h1 h2 => ?_
        simp only [fileData, getElem_map, getElem_range]
        rw [(hs.bytes o h2).2, getD_eq_getElem _ _ h2]
      rw [hdata]

end Winode

end Xv6.Mkfs
