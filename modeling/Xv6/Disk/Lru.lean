import Xv6.Disk.Bio
import Xv6.Lib.Links

/-!
# The list of buffers: the pointers of `bio.c`

In `Xv6.Disk.Bio` the buffers are listed in the order of their pointers. Here are the pointers
themselves: `binit`, `bget` and `brelse` as they follow and change them. They form one ring through
`bcache.head`, in the order in which the buffers were last released.
-/

namespace Xv6.Disk

open Lib List

/-- The pointer to `bcache.head`. The pointer to a buffer is its index in `bcache.buf`. -/
def HEAD : Nat := NBUF

/-- `bcache`, with the pointers `next` and `prev` of the buffers and of `head`. -/
structure Bcache where
  buf : Nat → Buf
  next : Nat → Nat
  prev : Nat → Nat

namespace Bcache

/-- The four writes that put `b` behind `head`. -/
def insert (c : Bcache) (b : Nat) : Bcache :=
  let c := { c with next := upd c.next b (c.next HEAD) }
  let c := { c with prev := upd c.prev b HEAD }
  let c := { c with prev := upd c.prev (c.next HEAD) b }
  { c with next := upd c.next HEAD b }

/-- The two writes that take `b` out. -/
def unlink (c : Bcache) (b : Nat) : Bcache :=
  let c := { c with prev := upd c.prev (c.next b) (c.prev b) }
  { c with next := upd c.next (c.prev b) (c.next b) }

def setBuf (c : Bcache) (b : Nat) (f : Buf → Buf) : Bcache :=
  { c with buf := upd c.buf b (f (c.buf b)) }

def binit (c : Bcache) : Bcache :=
  (List.range NBUF).foldl (fun c b => (c.setBuf b fun b => { b with dev := 2 ^ 32 - 1 }).insert b)
    { c with next := upd c.next HEAD HEAD, prev := upd c.prev HEAD HEAD }

/-- The loops of `bget`, along `next` or along `prev`: the first buffer from `b` on with `f`. -/
def scan (ptr : Nat → Nat) (f : Nat → Bool) : Nat → Nat → Option Nat
  | 0, _ => none
  | n + 1, b => if b = HEAD then none else if f b then some b else scan ptr f n (ptr b)

/-- Buffer `b` is for the sector. -/
def holds (c : Bcache) (dev sector b : Nat) :
    Bool := (c.buf b).dev = dev ∧ (c.buf b).sector = sector

/-- Buffer `b` is neither busy nor dirty. -/
def idle (c : Bcache) (b : Nat) : Bool := !(c.buf b).busy && !(c.buf b).dirty

/-- `for(b = bcache.head.next; b != &bcache.head; b = b->next)`. -/
def cached (c : Bcache) (dev sector : Nat) : Option Nat :=
  scan c.next (c.holds dev sector) (NBUF + 1) (c.next HEAD)

/-- `for(b = bcache.head.prev; b != &bcache.head; b = b->prev)`. -/
def recyclable (c : Bcache) : Option Nat := scan c.prev c.idle (NBUF + 1) (c.prev HEAD)

/-- A buffer for the sector. The call waits as long as there is one that is busy. -/
def bget (dev sector : Nat) : Prog Unit Bcache Panic Nat :=
  .act ()
    (fun c => match c.cached dev sector with
      | some b => !(c.buf b).busy
      | none => true)
    (fun c => match c.cached dev sector with
      | some b => c.setBuf b fun b => { b with busy := true }
      | none => match c.recyclable with
        | some b => c.setBuf b fun b =>
            { b with dev := dev, sector := sector, busy := true, valid := false, dirty := false }
        | none => c)
    fun c => match c.cached dev sector with
      | some b => .ret b
      | none => match c.recyclable with
        | some b => .ret b
        | none => .panic .bgetNoBuffers

/-- Release a buffer and move it to the head of the list. -/
def brelse (b : Nat) : Prog Unit Bcache Panic Unit := do
  let busy ← .get () fun c => (c.buf b).busy
  if !busy then .panic .brelse
  else .modify () fun c => ((c.unlink b).insert b).setBuf b fun b => { b with busy := false }

/-- What calls of `bget` and `brelse` lead to, after `binit`. The list has the released buffers, the
last one first. Other code changes what is in the buffers between the calls. -/
inductive Run : List Nat → Bcache → Prop
  | binit (c : Bcache) : Run [] c.binit
  | bget {h : List Nat} {c c' : Bcache} {dev sector b : Nat} (hr : Run h c)
      (hb : (bget dev sector).run c = .ok b c') : Run h c'
  | brelse {h : List Nat} {c c' : Bcache} {b : Nat} (hr : Run h c) (hlt : b < NBUF)
      (hb : (brelse b).run c = .ok () c') : Run (b :: h) c'
  | other {h : List Nat} {c : Bcache} (hr : Run h c) (buf : Nat → Buf) : Run h { c with buf := buf }

/-- How long ago a buffer was released, in calls of `brelse`. Those that never were come after the
others, in the order that `binit` gives them. -/
def age (h : List Nat) (b : Nat) : Nat := (h ++ (List.range NBUF).reverse).idxOf b

/-- The pointers form one ring of `head` and the buffers of `l`, which are all buffers. -/
structure Ring (c : Bcache) (l : List Nat) : Prop where
  links : Links c.next c.prev HEAD l HEAD
  nodup : l.Nodup
  mem : ∀ b, b ∈ l ↔ b < NBUF

section Ring

variable {c c' : Bcache} {l : List Nat} {b : Nat}

lemma Ring.congr (h : Ring c l) (hn : c'.next = c.next) (hp : c'.prev = c.prev) : Ring c' l where
  links := by
    rw [hn, hp]
    exact h.links
  nodup := h.nodup
  mem := h.mem

lemma Ring.head_not_mem (h : Ring c l) : HEAD ∉ l := by simp [h.mem, HEAD]

lemma Ring.length (h : Ring c l) : l.length = NBUF := by
  have hperm : l.Perm (List.range NBUF) := by
    rw [perm_ext_iff_of_nodup h.nodup nodup_range]
    simp [h.mem]
  simpa using hperm.length_eq

/-- A scan looks at the buffers in their order. -/
lemma scan_eq {next prev : Nat → Nat} {f : Nat → Bool} {x : Nat} (h : Links next prev x l HEAD)
    (hl : HEAD ∉ l) {n : Nat} (hn : l.length < n) : scan next f n (next x) = l.find? f := by
  induction l generalizing x n with
  | nil =>
    cases n with
    | zero => simp at hn
    | succ n => simp [scan, h.1]
  | cons a l ih =>
    cases n with
    | zero => simp at hn
    | succ n =>
      obtain ⟨h1, -, h⟩ := h
      simp only [mem_cons, not_or] at hl
      rw [h1, scan, if_neg (Ne.symm hl.1), find?_cons]
      cases hf : f a with
      | true => rfl
      | false => exact ih h hl.2 (by simpa using hn)

lemma Ring.cached_eq (h : Ring c l) (dev sector : Nat) :
    c.cached dev sector = l.find? (c.holds dev sector) :=
  scan_eq h.links h.head_not_mem (by simp [h.length])

lemma Ring.recyclable_eq (h : Ring c l) : c.recyclable = l.reverse.find? c.idle :=
  scan_eq h.links.reverse (by simpa using h.head_not_mem) (by simp [h.length])

@[simp] lemma setBuf_next (f : Buf → Buf) : (c.setBuf b f).next = c.next := rfl

@[simp] lemma setBuf_prev (f : Buf → Buf) : (c.setBuf b f).prev = c.prev := rfl

lemma insert_links (h : Links c.next c.prev HEAD l HEAD) (hl : (HEAD :: l).Nodup)
    (hb : b ∉ HEAD :: l) :
    Links (c.insert b).next (c.insert b).prev HEAD (b :: l) HEAD := by
  have hne : HEAD ≠ b := fun e => hb (by simp [e])
  have hprev : (c.insert b).prev = upd (upd c.prev b HEAD) (c.next HEAD) b := by
    simp [insert, upd_ne hne]
  rw [hprev]
  apply h.insert hb hne.symm hl
  exact (perm_append_singleton HEAD l).nodup_iff.mpr hl

lemma unlink_links {l' : List Nat} (h : Links c.next c.prev HEAD (l ++ b :: l') HEAD)
    (hl : (HEAD :: (l ++ b :: l')).Nodup) :
    Links (c.unlink b).next (c.unlink b).prev HEAD (l ++ l') HEAD := by
  have hnext : (c.unlink b).next = upd c.next (c.prev b) (c.next b) := by
    have hsame : upd c.prev (c.next b) (c.prev b) b = c.prev b := by
      unfold upd
      split_ifs <;> rfl
    simp [unlink, hsame]
  rw [hnext]
  obtain ⟨h, h'⟩ := Links.append_iff.mp h
  apply h.unlink h' hl
  rw [← cons_append, ← append_assoc]
  exact (perm_append_singleton HEAD _).nodup_iff.mpr hl

/-- `binit` puts the buffers behind `head` one after the other. -/
lemma Ring.binit (c : Bcache) : Ring c.binit (List.range NBUF).reverse := by
  have hloop : ∀ k ≤ NBUF, ∀ c : Bcache, Links c.next c.prev HEAD [] HEAD →
      Links ((List.range k).foldl
        (fun c b => (c.setBuf b fun b => { b with dev := 2 ^ 32 - 1 }).insert b) c).next
        ((List.range k).foldl (fun c b =>
          (c.setBuf b fun b => { b with dev := 2 ^ 32 - 1 }).insert b) c).prev
        HEAD (List.range k).reverse HEAD := by
    intro k hk c h
    induction k with
    | zero => exact h
    | succ k ih =>
      rw [range_succ, foldl_append, reverse_append]
      have hlt : k < HEAD := hk
      apply insert_links (ih (Nat.le_of_succ_le hk))
      · simp [nodup_range, hlt.le]
      · simp [hlt.ne]
  constructor
  · apply hloop NBUF le_rfl
    simp
  · simp [nodup_range]
  · simp

lemma Ring.brelse (h : Ring c l) (hb : b < NBUF) :
    Ring ((c.unlink b).insert b) (b :: l.erase b) := by
  have hmem := (h.mem b).mpr hb
  have hhead : (HEAD :: l).Nodup := nodup_cons.mpr ⟨h.head_not_mem, h.nodup⟩
  have hout : (HEAD :: l.erase b).Nodup := hhead.sublist (erase_sublist.cons_cons HEAD)
  obtain ⟨l1, l2, -, hl, herase⟩ := exists_erase_eq hmem
  constructor
  · apply insert_links _ hout
    · have hne : b ≠ HEAD := hb.ne
      simp [h.nodup.mem_erase_iff, hne]
    · rw [herase]
      rw [hl] at hhead
      exact unlink_links (hl ▸ h.links) hhead
  · simp [h.nodup.erase, h.nodup.mem_erase_iff]
  · intro a
    rw [mem_cons, h.nodup.mem_erase_iff, h.mem]
    constructor
    · rintro (rfl | ⟨-, ha⟩)
      · exact hb
      · exact ha
    · intro ha
      by_cases hab : a = b
      · exact .inl hab
      · exact .inr ⟨hab, ha⟩

end Ring

/-! ### The order of the ring -/

section Order

variable {h : List Nat} {c c' : Bcache} {l : List Nat} {a b dev sector : Nat}

@[simp] lemma age_same : age (b :: h) b = 0 := by simp [age]

lemma age_ne (hab : a ≠ b) : age (b :: h) a = age h a + 1 := by
  simp [age, idxOf_cons_ne _ hab.symm]

/-- Every buffer of the ring was released after those behind it. -/
def Sorted (h : List Nat) (l : List Nat) : Prop := l.Pairwise fun a b => age h a < age h b

lemma Sorted.binit : Sorted [] (List.range NBUF).reverse := by
  unfold Sorted
  decide

lemma Sorted.brelse (hs : Sorted h l) (hl : l.Nodup) : Sorted (b :: h) (b :: l.erase b) := by
  have hne : ∀ a ∈ l.erase b, a ≠ b := fun a ha => (hl.mem_erase_iff.mp ha).1
  constructor
  · intro a ha
    rw [age_same, age_ne (hne a ha)]
    apply Nat.succ_pos
  · apply (hs.sublist erase_sublist).imp_of_mem
    intro x y hx hy hxy
    rw [age_ne (hne x hx), age_ne (hne y hy)]
    exact Nat.succ_lt_succ hxy

/-- `bget` changes no pointer. -/
lemma run_bget (hr : (bget dev sector).run c = .ok b c') :
    c'.next = c.next ∧ c'.prev = c.prev ∧ (c.cached dev sector = none → c.recyclable = some b) := by
  rw [bget, Prog.run_act] at hr
  cases hc : c.cached dev sector with
  | some i =>
    cases hbusy : (c.buf i).busy with
    | true => simp [hc, hbusy] at hr
    | false =>
      simp only [hc, hbusy, Bool.not_false, cond_true, Prog.run_ret, Res.ok.injEq] at hr
      obtain ⟨-, rfl⟩ := hr
      simp
  | none =>
    cases hrec : c.recyclable with
    | some i =>
      simp only [hc, hrec, cond_true, Prog.run_ret, Res.ok.injEq] at hr
      obtain ⟨rfl, rfl⟩ := hr
      simp
    | none => simp [hc, hrec] at hr

/-- On a miss `bget` returns if there is a buffer to recycle. -/
lemma run_bget_miss (hc : c.cached dev sector = none) (hrec : c.recyclable = some b) :
    ∃ c', (bget dev sector).run c = .ok b c' := by
  simp [bget, Prog.run_act, hc, hrec]

lemma run_brelse (hr : (brelse b).run c = .ok () c') :
    c' = ((c.unlink b).insert b).setBuf b fun b => { b with busy := false } := by
  rw [brelse, Prog.run_bind, Prog.run_get] at hr
  cases hbusy : (c.buf b).busy with
  | true => simpa [Res.andThen, hbusy, eq_comm] using hr
  | false => simp [Res.andThen, hbusy] at hr

/-- Every run keeps the buffers in one ring, in the order of their last release. -/
lemma Run.ring (hr : Run h c) : ∃ l, Ring c l ∧ Sorted h l := by
  induction hr with
  | binit c => exact ⟨_, Ring.binit c, Sorted.binit⟩
  | bget _ hb ih =>
    obtain ⟨l, hring, hs⟩ := ih
    obtain ⟨hn, hp, -⟩ := run_bget hb
    exact ⟨l, hring.congr hn hp, hs⟩
  | @brelse h c c' b _ hlt hb ih =>
    obtain ⟨l, hring, hs⟩ := ih
    rw [run_brelse hb]
    exact ⟨b :: l.erase b, (hring.brelse hlt).congr rfl rfl, hs.brelse hring.nodup⟩
  | other _ buf ih =>
    obtain ⟨l, hring, hs⟩ := ih
    exact ⟨l, hring.congr rfl rfl, hs⟩

end Order

/-- The buffers before `binit`. -/
def blank : Bcache where
  buf _ := ⟨0, 0, false, false, false, fun _ => 0⟩
  next _ := 0
  prev _ := 0

/-- The list `mru` is the ring, and the buffers are the same. -/
structure Refines (c : Bcache) (s : State) : Prop where
  buf : ∀ b < NBUF, c.buf b = s.buf b
  ring : Ring c s.mru

section Refines

variable {c c' : Bcache} {s : State} {b dev sector : Nat}

lemma find?_congr {l : List Nat} {f g : Nat → Bool} (h : ∀ b ∈ l, f b = g b) :
    l.find? f = l.find? g := by
  induction l with
  | nil => rfl
  | cons a l ih =>
    simp only [forall_mem_cons] at h
    rw [find?_cons, find?_cons, h.1, ih h.2]

lemma Refines.cached (h : Refines c s) (dev sector : Nat) :
    c.cached dev sector = s.cached dev sector := by
  rw [h.ring.cached_eq, State.cached]
  apply find?_congr
  intro b hb
  rw [holds, h.buf b ((h.ring.mem b).mp hb)]

lemma Refines.recyclable (h : Refines c s) : c.recyclable = s.recyclable := by
  rw [h.ring.recyclable_eq, State.recyclable]
  apply find?_congr
  intro b hb
  rw [idle, h.buf b ((h.ring.mem b).mp (by simpa using hb))]

lemma Refines.setBuf (h : Refines c s) (hb : b < NBUF) (f : Buf → Buf) :
    Refines (c.setBuf b f) (s.setBuf b f) where
  buf a ha := by
    by_cases hab : a = b
    · simp [Bcache.setBuf, State.setBuf, hab, h.buf b hb]
    · simp [Bcache.setBuf, State.setBuf, upd_ne hab, h.buf a ha]
  ring := h.ring.congr rfl rfl

lemma binit_buf (c : Bcache) (b : Nat) : ∀ k,
    ((List.range k).foldl (fun c b =>
    (c.setBuf b fun b => { b with dev := 2 ^ 32 - 1 }).insert b) c).buf b =
      if b < k then { c.buf b with dev := 2 ^ 32 - 1 } else c.buf b := by
  intro k
  induction k with
  | zero => simp
  | succ k ih =>
    rw [range_succ, foldl_append]
    change upd _ k _ b = _
    by_cases hb : b = k
    · subst hb
      rw [upd_same, ih, if_neg (lt_irrefl b), if_pos (Nat.lt_succ_self b)]
    · rw [upd_ne hb]
      apply ih.trans
      simp only [Nat.lt_succ_iff_lt_or_eq, hb, or_false]

lemma Refines.binit (s : State) : Refines blank.binit s.binit where
  buf b hb := by
    rw [Bcache.binit, binit_buf, if_pos hb]
    rfl
  ring := Ring.binit blank

/-- The pointers do what `bget` and `brelse` do with the list. -/
theorem ring_refines_list (h : Refines c s) :
    (∀ dev sector b c', (bget dev sector).run c = .ok b c' →
      ∃ s', (Disk.bget dev sector).run s = .ok b s' ∧ Refines c' s') ∧
    ∀ b < NBUF, ∀ c', (brelse b).run c = .ok () c' →
      ∃ s', (Disk.brelse b).run s = .ok () s' ∧ Refines c' s' := by
  refine ⟨fun dev sector b c' hr => ?_, fun b hb c' hr => ?_⟩
  · rw [bget, Prog.run_act, h.cached, h.recyclable] at hr
    rw [Disk.bget, Prog.run_act]
    cases hc : s.cached dev sector with
    | some i =>
      have hi : i < NBUF := (h.ring.mem i).mp (mem_of_find?_eq_some hc)
      cases hbusy : (c.buf i).busy with
      | true => simp [hc, hbusy] at hr
      | false =>
        simp only [hc, hbusy, Bool.not_false, cond_true, Prog.run_ret, Res.ok.injEq] at hr
        obtain ⟨rfl, rfl⟩ := hr
        refine ⟨_, ?_, h.setBuf hi _⟩
        simp [← h.buf i hi, hbusy]
    | none =>
      cases hrec : s.recyclable with
      | some i =>
        have hi : i < NBUF := (h.ring.mem i).mp (by simpa using mem_of_find?_eq_some hrec)
        simp only [hc, hrec, cond_true, Prog.run_ret, Res.ok.injEq] at hr
        obtain ⟨rfl, rfl⟩ := hr
        exact ⟨_, rfl, h.setBuf hi _⟩
      | none => simp [hc, hrec] at hr
  · have hbusy : (c.buf b).busy = true := by
      cases hbusy : (c.buf b).busy with
      | true => rfl
      | false => simp [brelse, Prog.run_bind, Res.andThen, hbusy] at hr
    obtain rfl := run_brelse hr
    refine ⟨{ s.setBuf b fun b => { b with busy := false } with mru := b :: s.mru.erase b }, ?_, ?_,
      ?_⟩
    · rw [h.buf b hb] at hbusy
      simp [Disk.brelse, Disk.read, Disk.write, Prog.run_bind, Res.andThen, hbusy]
    · exact (h.setBuf hb fun b => { b with busy := false }).buf
    · exact (h.ring.brelse hb).congr rfl rfl

/-- The first `bget` after `binit`. -/
theorem ring_refines_list_binit : ∃ b c s, (bget 1 5).run blank.binit = .ok b c ∧ Refines c s := by
  have hc : blank.binit.cached 1 5 = none := by decide
  obtain ⟨c, hrun⟩ := run_bget_miss hc rfl
  have h := Refines.binit ⟨0, fun _ _ => 0, blank.buf, [], ⟨0, 0, false, []⟩⟩
  obtain ⟨s, -, h⟩ := (ring_refines_list h).1 _ _ _ _ hrun
  exact ⟨_, c, s, hrun, h⟩

end Refines

end Bcache

end Xv6.Disk
