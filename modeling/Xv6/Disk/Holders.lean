import Xv6.Disk.Bio
import Mathlib.Logic.Relation

/-!
# The holders of the buffers

Any number of processes call `bget` and `brelse`, in any order. A step is one critical section under
`bcache.lock`. A `bget` that finds the buffer busy sleeps and scans the cache again from the start:
it takes its step when the scan finds a buffer that is free.
-/

namespace Xv6.Disk

open Lib Prog List

/-- The device number `-1` that `binit` gives to a buffer. -/
def NODEV : Nat := 2 ^ 32 - 1

/-- A buffer that `bget` has returned, with the arguments of the call. -/
structure Got where
  buf : Nat
  dev : Nat
  sector : Nat
  deriving DecidableEq

/-- The buffer cache, and for each process the buffers that it has got and not yet released. -/
structure Holders where
  state : State
  got : Nat → List Got

namespace Holders

/-- One step of one process. Between `bget` and `brelse` the holder reads the buffer from disk,
changes it, logs it or writes it: that changes its flags and its data. -/
inductive Step : Holders → Holders → Prop
  | bget {c : Holders} (p dev sector : Nat) {i : Nat} {s : State}
      (h : (Disk.bget dev sector).run c.state = .ok i s) :
      Step c ⟨s, upd c.got p (⟨i, dev, sector⟩ :: c.got p)⟩
  | brelse {c : Holders} (p : Nat) {g : Got} {s : State} (hg : g ∈ c.got p)
      (h : (Disk.brelse g.buf).run c.state = .ok () s) :
      Step c ⟨s, upd c.got p ((c.got p).erase g)⟩
  | change {c : Holders} (p : Nat) {g : Got} (hg : g ∈ c.got p) (valid dirty : Bool)
      (data : Bytes) :
      Step c { c with state := c.state.setBuf g.buf fun b =>
        { b with valid := valid, dirty := dirty, data := data } }

/-- The states that processes reach from `c0`. -/
abbrev Run (c0 c : Holders) : Prop := Relation.ReflTransGen Step c0 c

/-- After `binit`, before the first call. -/
def start (s : State) : Holders := ⟨s.binit, fun _ => []⟩

/-- A sector has at most one buffer, and a buffer at most one holder, who has it for the sector that
was asked for. No step gives a busy or dirty buffer to another sector. -/
structure Exclusive (c : Holders) : Prop where
  unique : ∀ i < NBUF, ∀ j < NBUF, (c.state.buf i).dev ≠ NODEV →
    (c.state.buf j).dev = (c.state.buf i).dev → (c.state.buf j).sector = (c.state.buf i).sector →
    i = j
  holder : ∀ i < NBUF, (c.state.buf i).busy = true → ∃! p, ∃ g ∈ c.got p, g.buf = i
  once : ∀ p, ((c.got p).map Got.buf).Nodup
  asked : ∀ p, ∀ g ∈ c.got p, g.buf < NBUF ∧ (c.state.buf g.buf).busy = true ∧
    (c.state.buf g.buf).dev = g.dev ∧ (c.state.buf g.buf).sector = g.sector
  kept : ∀ c', Step c c' → ∀ i < NBUF,
    (c.state.buf i).busy = true ∨ (c.state.buf i).dirty = true →
    (c'.state.buf i).dev = (c.state.buf i).dev ∧ (c'.state.buf i).sector = (c.state.buf i).sector

/-! ### What one step does -/

/-- `bget` returns a free buffer of the sector, or a free and clean one when the sector has none. -/
lemma bget_cases {s s' : State} {dev sector i : Nat}
    (h : (Disk.bget dev sector).run s = .ok i s') :
    (i ∈ s.mru ∧ (s.buf i).busy = false ∧ (s.buf i).dev = dev ∧ (s.buf i).sector = sector ∧
      s' = s.setBuf i fun b => { b with busy := true }) ∨
    (i ∈ s.mru ∧ (s.buf i).busy = false ∧ (s.buf i).dirty = false ∧
      (∀ j ∈ s.mru, ¬ ((s.buf j).dev = dev ∧ (s.buf j).sector = sector)) ∧
      s' = s.setBuf i fun b =>
        { b with dev := dev, sector := sector, busy := true, valid := false, dirty := false }) := by
  unfold Disk.bget at h
  rw [run_act] at h
  cases hc : s.cached dev sector with
  | some j =>
    simp only [hc] at h
    cases hb : (s.buf j).busy with
    | true =>
      rw [hb] at h
      cases h
    | false =>
      rw [hb] at h
      obtain ⟨rfl, rfl⟩ := Res.ok.inj h
      have hj : (s.buf j).dev = dev ∧ (s.buf j).sector = sector := by
        simpa using find?_some hc
      exact .inl ⟨mem_of_find?_eq_some hc, hb, hj.1, hj.2, rfl⟩
  | none =>
    simp only [hc] at h
    cases hr : s.recyclable with
    | none =>
      rw [hr] at h
      cases h
    | some j =>
      simp only [hr] at h
      obtain ⟨rfl, rfl⟩ := Res.ok.inj h
      have hj : (s.buf j).busy = false ∧ (s.buf j).dirty = false := by
        simpa using find?_some hr
      refine .inr ⟨mem_reverse.mp (mem_of_find?_eq_some hr), hj.1, hj.2, ?_, rfl⟩
      intro k hk
      simpa using find?_eq_none.mp hc k hk

lemma brelse_cases {s s' : State} {i : Nat} (h : (Disk.brelse i).run s = .ok () s') :
    s' = { s.setBuf i fun b => { b with busy := false } with mru := i :: s.mru.erase i } := by
  unfold Disk.brelse at h
  rw [run_bind] at h
  cases hb : (s.buf i).busy with
  | false => simp [read, Res.andThen, hb] at h
  | true =>
    simp only [read, run_get, Res.andThen, hb, Bool.not_true, Bool.false_eq_true, if_false, write,
      run_modify, Res.ok.injEq, true_and] at h
    exact h.symm

/-! ### The invariant -/

/-- What every step keeps. -/
structure Inv (c : Holders) : Prop where
  mru : c.state.mru.Perm (List.range NBUF)
  unique : ∀ i < NBUF, ∀ j < NBUF, (c.state.buf i).dev ≠ NODEV →
    (c.state.buf j).dev = (c.state.buf i).dev → (c.state.buf j).sector = (c.state.buf i).sector →
    i = j
  busy : ∀ i < NBUF, (c.state.buf i).busy = true → ∃ p, ∃ g ∈ c.got p, g.buf = i
  got : ∀ p, ∀ g ∈ c.got p, g.buf < NBUF ∧ (c.state.buf g.buf).busy = true ∧
    (c.state.buf g.buf).dev = g.dev ∧ (c.state.buf g.buf).sector = g.sector
  once : ∀ p, ((c.got p).map Got.buf).Nodup
  apart : ∀ p q, p ≠ q → ∀ g ∈ c.got p, ∀ g' ∈ c.got q, g.buf ≠ g'.buf

variable {c c' : Holders}

lemma Inv.mem_mru (h : c.Inv) {i : Nat} : i ∈ c.state.mru ↔ i < NBUF := by
  rw [h.mru.mem_iff, mem_range]

lemma start_inv (s : State) : (start s).Inv where
  mru := reverse_perm _
  unique := fun _ _ _ _ hd => absurd rfl hd
  busy := fun _ _ hb => by cases hb
  got := fun _ _ hg => absurd hg not_mem_nil
  once := fun _ => nodup_nil
  apart := fun _ _ _ _ hg => absurd hg not_mem_nil

/-- A process takes a buffer that is free and puts it to a sector that no other buffer has. -/
lemma Inv.take (h : c.Inv) {p dev sector i : Nat} (nb : Buf) (hi : i < NBUF)
    (hfree : (c.state.buf i).busy = false) (hb : nb.busy = true) (hd : nb.dev = dev)
    (hs : nb.sector = sector) (hother : dev ≠ NODEV → ∀ j < NBUF, j ≠ i →
      ¬ ((c.state.buf j).dev = dev ∧ (c.state.buf j).sector = sector)) :
    Inv ⟨c.state.setBuf i fun _ => nb, upd c.got p (⟨i, dev, sector⟩ :: c.got p)⟩ := by
  have hsame : (c.state.setBuf i fun _ => nb).buf i = nb := State.setBuf_same _
  have hne : ∀ j, j ≠ i → (c.state.setBuf i fun _ => nb).buf j = c.state.buf j :=
    fun j hj => State.setBuf_ne _ hj
  -- nobody has got buffer `i` yet
  have hnew : ∀ q, ∀ g ∈ c.got q, g.buf ≠ i := by
    intro q g hg e
    have := (h.got q g hg).2.1
    rw [e, hfree] at this
    cases this
  have hgot : ∀ q g, g ∈ upd c.got p (⟨i, dev, sector⟩ :: c.got p) q ↔
      (q = p ∧ g = ⟨i, dev, sector⟩) ∨ g ∈ c.got q := by
    intro q g
    by_cases hq : q = p
    · subst hq
      simp
    · simp [upd_ne hq, hq]
  refine ⟨h.mru, ?_, ?_, ?_, ?_, ?_⟩
  · intro j hj k hk hnd hdev hsec
    by_cases hji : j = i <;> by_cases hki : k = i
    · rw [hji, hki]
    · subst hji
      rw [hsame] at hnd hdev hsec
      rw [hne k hki] at hdev hsec
      exact absurd ⟨hdev.trans hd, hsec.trans hs⟩ (hother (hd ▸ hnd) k hk hki)
    · subst hki
      rw [hsame] at hdev hsec
      rw [hne j hji] at hnd hdev hsec
      exact absurd ⟨hdev.symm.trans hd, hsec.symm.trans hs⟩
        (hother (hd ▸ hdev ▸ hnd) j hj hji)
    · rw [hne j hji] at hnd hdev hsec
      rw [hne k hki] at hdev hsec
      exact h.unique j hj k hk hnd hdev hsec
  · intro j hj hbusy
    by_cases hji : j = i
    · exact ⟨p, ⟨i, dev, sector⟩, (hgot p _).mpr (.inl ⟨rfl, rfl⟩), hji.symm⟩
    · rw [hne j hji] at hbusy
      obtain ⟨q, g, hg, hgj⟩ := h.busy j hj hbusy
      exact ⟨q, g, (hgot q g).mpr (.inr hg), hgj⟩
  · intro q g hg
    rcases (hgot q g).mp hg with ⟨-, rfl⟩ | hg
    · exact ⟨hi, by rw [hsame]; exact ⟨hb, hd, hs⟩⟩
    · rw [hne g.buf (hnew q g hg)]
      exact h.got q g hg
  · intro q
    change List.Nodup (List.map Got.buf (upd c.got p (⟨i, dev, sector⟩ :: c.got p) q))
    by_cases hq : q = p
    · subst hq
      rw [upd_same, map_cons, nodup_cons]
      refine ⟨fun hm => ?_, h.once q⟩
      obtain ⟨g, hg, hgi⟩ := mem_map.mp hm
      exact hnew q g hg hgi
    · rw [upd_ne hq]
      exact h.once q
  · intro q r hqr g hg g' hg'
    rcases (hgot q g).mp hg with ⟨hq, rfl⟩ | hg <;> rcases (hgot r g').mp hg' with ⟨hr, rfl⟩ | hg'
    · exact absurd (hq.trans hr.symm) hqr
    · exact (hnew r g' hg').symm
    · exact hnew q g hg
    · exact h.apart q r hqr g hg g' hg'

/-- A process gives back a buffer. -/
lemma Inv.release (h : c.Inv) {p : Nat} {g : Got} (hg : g ∈ c.got p) :
    Inv ⟨{ c.state.setBuf g.buf fun b => { b with busy := false } with
      mru := g.buf :: c.state.mru.erase g.buf }, upd c.got p ((c.got p).erase g)⟩ := by
  obtain ⟨hi, -, -, -⟩ := h.got p g hg
  -- what is still held are other buffers
  have hsub : ∀ q g', g' ∈ upd c.got p ((c.got p).erase g) q → g' ∈ c.got q ∧ g'.buf ≠ g.buf := by
    intro q g' hg'
    by_cases hq : q = p
    · subst hq
      rw [upd_same] at hg'
      have hg'' := mem_of_mem_erase hg'
      refine ⟨hg'', fun e => ?_⟩
      obtain rfl := inj_on_of_nodup_map (h.once q) hg'' hg e
      exact (List.Nodup.of_map _ (h.once q)).not_mem_erase hg'
    · rw [upd_ne hq] at hg'
      exact ⟨hg', h.apart q p hq g' hg' g hg⟩
  set s' : State := { c.state.setBuf g.buf fun b => { b with busy := false } with
    mru := g.buf :: c.state.mru.erase g.buf } with hs'
  have hbuf : ∀ j, s'.buf j =
      { c.state.buf j with busy := if j = g.buf then false else (c.state.buf j).busy } := by
    intro j
    change upd c.state.buf g.buf _ j = _
    by_cases hj : j = g.buf
    · rw [hj, upd_same, if_pos rfl]
    · rw [upd_ne hj, if_neg hj]
  refine ⟨?_, ?_, ?_, ?_, ?_, ?_⟩
  · exact (perm_cons_erase (h.mem_mru.mpr hi)).symm.trans h.mru
  · intro j hj k hk
    change (s'.buf j).dev ≠ NODEV → (s'.buf k).dev = (s'.buf j).dev →
      (s'.buf k).sector = (s'.buf j).sector → j = k
    rw [hbuf j, hbuf k]
    exact h.unique j hj k hk
  · intro j hj hbusy
    change (s'.buf j).busy = true at hbusy
    rw [hbuf j] at hbusy
    by_cases hji : j = g.buf
    · simp [hji] at hbusy
    · obtain ⟨q, g', hg', e⟩ := h.busy j hj (by simpa [hji] using hbusy)
      refine ⟨q, g', ?_, e⟩
      change g' ∈ upd c.got p ((c.got p).erase g) q
      by_cases hq : q = p
      · subst hq
        rw [upd_same, mem_erase_of_ne fun e' => hji (e' ▸ e).symm]
        exact hg'
      · rwa [upd_ne hq]
  · intro q g' hg'
    obtain ⟨hg', hne⟩ := hsub q g' hg'
    change g'.buf < NBUF ∧ (s'.buf g'.buf).busy = true ∧ (s'.buf g'.buf).dev = g'.dev ∧
      (s'.buf g'.buf).sector = g'.sector
    rw [hbuf, if_neg hne]
    exact h.got q g' hg'
  · intro q
    change List.Nodup (List.map Got.buf (upd c.got p ((c.got p).erase g) q))
    by_cases hq : q = p
    · subst hq
      rw [upd_same]
      exact (h.once q).sublist (List.Sublist.map _ erase_sublist)
    · rw [upd_ne hq]
      exact h.once q
  · intro q r hqr g1 hg1 g2 hg2
    exact h.apart q r hqr g1 (hsub q g1 hg1).1 g2 (hsub r g2 hg2).1

/-- The holder of a buffer changes its flags and its data. -/
lemma Inv.change (h : c.Inv) (i : Nat) (valid dirty : Bool) (data : Bytes) :
    Inv { c with state := c.state.setBuf i fun b =>
      { b with valid := valid, dirty := dirty, data := data } } := by
  set s' := c.state.setBuf i fun b => { b with valid := valid, dirty := dirty, data := data }
    with hs'
  have hbuf : ∀ j, (s'.buf j).dev = (c.state.buf j).dev ∧
      (s'.buf j).sector = (c.state.buf j).sector ∧ (s'.buf j).busy = (c.state.buf j).busy := by
    intro j
    by_cases hj : j = i
    · subst hj
      rw [hs', State.setBuf_same]
      exact ⟨rfl, rfl, rfl⟩
    · rw [hs', State.setBuf_ne _ hj]
      exact ⟨rfl, rfl, rfl⟩
  refine ⟨h.mru, fun j hj k hk => ?_, fun j hj => ?_, fun p g hg => ?_, h.once, h.apart⟩
  · rw [(hbuf j).1, (hbuf j).2.1, (hbuf k).1, (hbuf k).2.1]
    exact h.unique j hj k hk
  · rw [(hbuf j).2.2]
    exact h.busy j hj
  · rw [(hbuf _).1, (hbuf _).2.1, (hbuf _).2.2]
    exact h.got p g hg

lemma Inv.step (h : c.Inv) (hs : Step c c') : c'.Inv := by
  cases hs with
  | bget p dev sector hb =>
    rcases bget_cases hb with ⟨hm, hfree, hd, hs, rfl⟩ | ⟨hm, hfree, -, hno, rfl⟩
    · refine h.take { c.state.buf _ with busy := true } (h.mem_mru.mp hm) hfree rfl hd hs ?_
      intro hdev j hj hne hds
      exact hne (h.unique j hj _ (h.mem_mru.mp hm) (by rw [hds.1]; exact hdev)
        (hd.trans hds.1.symm) (hs.trans hds.2.symm))
    · exact h.take { c.state.buf _ with
        dev := dev, sector := sector, busy := true, valid := false, dirty := false }
        (h.mem_mru.mp hm) hfree rfl rfl rfl fun _ j hj _ => hno j (h.mem_mru.mpr hj)
  | brelse p hg hb =>
    obtain rfl := brelse_cases hb
    exact h.release hg
  | change p hg valid dirty data => exact h.change _ valid dirty data

lemma Run.inv {s : State} (hrun : Run (start s) c) : c.Inv := by
  induction hrun with
  | refl => exact start_inv s
  | tail _ hs ih => exact ih.step hs

/-- A step moves a buffer to another sector only if it is free and clean. -/
lemma Step.kept (hs : Step c c') {i : Nat}
    (hi : (c.state.buf i).busy = true ∨ (c.state.buf i).dirty = true) :
    (c'.state.buf i).dev = (c.state.buf i).dev ∧
      (c'.state.buf i).sector = (c.state.buf i).sector := by
  have hset : ∀ (f : Buf → Buf) (j : Nat),
      (∀ b, (f b).dev = b.dev ∧ (f b).sector = b.sector) →
      ((c.state.setBuf j f).buf i).dev = (c.state.buf i).dev ∧
        ((c.state.setBuf j f).buf i).sector = (c.state.buf i).sector := by
    intro f j hf
    by_cases hij : i = j
    · subst hij
      rw [State.setBuf_same]
      exact hf _
    · rw [State.setBuf_ne _ hij]
      exact ⟨rfl, rfl⟩
  cases hs with
  | bget p dev sector hb =>
    rcases bget_cases hb with ⟨-, -, -, -, rfl⟩ | ⟨-, hfree, hclean, -, rfl⟩
    · exact hset (fun b => { b with busy := true }) _ fun _ => ⟨rfl, rfl⟩
    · rw [State.setBuf_ne]
      · exact ⟨rfl, rfl⟩
      · rintro rfl
        rw [hfree, hclean] at hi
        simp at hi
  | brelse p hg hb =>
    obtain rfl := brelse_cases hb
    exact hset (fun b => { b with busy := false }) _ fun _ => ⟨rfl, rfl⟩
  | change p hg valid dirty data =>
    exact hset (fun b => { b with valid := valid, dirty := dirty, data := data }) _
      fun _ => ⟨rfl, rfl⟩

/-- However the calls of `bget` and `brelse` are interleaved after `binit`, each sector has one
buffer and each buffer one holder. -/
theorem buffers_exclusive {s : State} (hrun : Run (start s) c) : c.Exclusive := by
  have h := Run.inv hrun
  refine ⟨h.unique, fun i hi hb => ?_, h.once, h.got, fun c' hs i _ => hs.kept⟩
  obtain ⟨p, g, hg, hgi⟩ := h.busy i hi hb
  refine ⟨p, ⟨g, hg, hgi⟩, ?_⟩
  rintro q ⟨g', hg', hgi'⟩
  by_contra hqp
  exact h.apart q p hqp g' hg' g hg (hgi'.trans hgi.symm)

/-- A machine before `binit`. -/
def blank : State :=
  ⟨0, fun _ _ => 0, fun _ => ⟨0, 0, false, false, false, fun _ => 0⟩, [], ⟨0, 0, false, []⟩⟩

/-- Two processes hold a buffer each; the first one has released another before. -/
theorem buffers_exclusive_two : ∃ c, Run (start blank) c ∧ c.got 0 = [⟨0, 1, 7⟩] ∧
    c.got 1 = [⟨1, 1, 8⟩] ∧ c.Exclusive := by
  have h1 : Run (start blank) _ := .single (.bget 0 1 7 rfl)
  have h2 := h1.tail (.bget 1 1 8 rfl)
  have h3 := h2.tail (.bget 0 1 9 rfl)
  have h4 := h3.tail (.brelse 0 (g := ⟨2, 1, 9⟩) mem_cons_self rfl)
  exact ⟨_, h4, rfl, rfl, buffers_exclusive h4⟩

end Holders

end Xv6.Disk
