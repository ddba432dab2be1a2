import Xv6.Disk.IdeInvariant

/-!
# The disk driver executes its requests in order

Whatever the processes, the disk and the interrupts do in between, the requests are those of a
sequential driver in the order of the queue, and so those of `memide.c`.
-/

namespace Xv6.Ide

open Lib Disk Prog List Function

/-! ### The threads -/

section

variable {d : Nat → Nat → Bytes} {st : Stage} {s : State} {spot : Tid → Spot} {t : Tid} {m : Spot}
  {p b i turns : Nat} {v : Buf} {r : Request}

/-- An action that changes the lock and the sleepers only. -/
lemma safe_quiet {g : State → Bool} {u : State → State}
    (hu : ∀ s, ∃ lock asleep, u s = { s with idelock := lock, asleep := asleep }) :
    (act () g u fun _ => ret () : I Unit).safe (outline d) t m fun _ m' => m' = m := by
  intro s spot hinv hm _ _
  obtain ⟨st, hcore, hplaces⟩ := hinv
  obtain ⟨lock, asleep, hu⟩ := hu s
  rw [hu]
  refine ⟨trivial, m, ⟨st, hcore.frame _ _ _ _, ?_⟩, rfl⟩
  rw [← hm, update_eq_self]
  exact hplaces.stage (fun _ => Iff.rfl) rfl rfl rfl rfl rfl rfl

lemma safe_acquire : (acquire t).safe (outline d) t m fun _ m' => m' = m :=
  safe_quiet fun s => ⟨some t, s.asleep, rfl⟩

lemma safe_release : release.safe (outline d) t m fun _ m' => m' = m :=
  safe_quiet fun s => ⟨none, s.asleep, rfl⟩

lemma safe_sleep : (sleep p b).safe (outline d) (.proc p) m fun _ m' => m' = m := by
  refine safe_bind (safe_quiet fun s => ⟨none, upd s.asleep p (some b), rfl⟩) ?_
  rintro - m' rfl
  refine safe_bind (safe_quiet fun s => ⟨s.idelock, s.asleep, rfl⟩) ?_
  rintro - m' rfl
  exact safe_acquire

lemma safe_rouse : (rouse p).safe (outline d) t m fun _ m' => m' = m :=
  safe_quiet fun s => ⟨s.idelock, upd s.asleep p none, rfl⟩

/-- A process whose buffer is valid and clean has its request finished. -/
lemma Places.served (h : Places st s spot) (hcore : Core d st s)
    (hp : spot (.proc p) = .queued i r)
    (hv : ((s.buf r.num).valid && !(s.buf r.num).dirty) = true) :
    Places st s (update spot (.proc p) (.served i r)) := by
  have hat := h.at_ (.proc p)
  rw [hp] at hat
  obtain ⟨p', hp', ho, hi, hr, hres⟩ := hat
  obtain rfl := Tid.proc.inj hp'
  have hlt : i < s.finished.length := by
    by_contra hge
    obtain ⟨hgiven, -⟩ := h.pending i r (by omega) hr
    have hwanted := (hcore.sound r (mem_of_getElem? hr)).2
    rw [Wanted, ← hgiven, hv] at hwanted
    cases hwanted
  apply h.own rfl rfl rfl (fun b q _ ho => ⟨ho, rfl⟩) rfl
  · intro i' b' hq
    rw [hp] at hq
    obtain ⟨rfl, -⟩ := Spot.queued.inj hq
    exact hlt
  · simp [hp]
  · simp
  · exact ⟨p, rfl, ho, hi, hr, hres hlt⟩

/-- A value is read; what the process knows may change. -/
lemma safe_get {α : Type} {f : State → α} {Q : α → Spot → Prop}
    (h : ∀ st s spot, Core d st s → Places st s spot → spot t = m →
      ∃ m', Places st s (update spot t m') ∧ Q (f s) m') :
    (get () f : I α).safe (outline d) t m Q := by
  intro s spot hinv hm _ _
  obtain ⟨st, hcore, hplaces⟩ := hinv
  obtain ⟨m', hplaces', hQ⟩ := h st s spot hcore hplaces hm
  exact ⟨trivial, m', ⟨st, hcore, hplaces'⟩, hQ⟩

lemma safe_await : (await p r.num turns).safe (outline d) (.proc p) (.queued i r)
    fun _ m => m = .served i r := by
  induction turns with
  | zero =>
    intro s spot _ _ hg
    cases hg
  | succ turns ih =>
    refine safe_bind (Q := fun v m => m = if v.valid && !v.dirty then .served i r else .queued i r)
      (safe_get ?_) ?_
    · intro st s spot hcore hplaces hm
      refine ⟨_, ?_, rfl⟩
      by_cases hv : ((s.buf r.num).valid && !(s.buf r.num).dirty) = true
      · rw [if_pos hv]
        exact hplaces.served hcore hm hv
      · rw [if_neg hv, ← hm, update_eq_self]
        exact hplaces
    · rintro v m rfl
      by_cases hv : (v.valid && !v.dirty) = true
      · rw [if_pos hv, if_pos hv]
        rfl
      · rw [if_neg hv, if_neg hv]
        refine safe_then safe_sleep fun _ => ?_
        exact ih

lemma safe_submit (hv : Wanted v) {g : State → Bool} :
    (act () g (fun s => s.submit p b) fun _ => ret () : I Unit).safe (outline d) (.proc p)
      (.ready b v) fun _ m => ∃ i, m = .queued i ⟨b, v⟩ := by
  intro s spot hinv hm _ _
  obtain ⟨st, hcore, hplaces⟩ := hinv
  obtain ⟨st', hcore', hplaces'⟩ := hcore.submit hplaces hm hv
  exact ⟨trivial, _, ⟨st', hcore', hplaces'⟩, _, rfl⟩

lemma safe_iderw : (iderw p b turns).safe (outline d) (.proc p) (.ready b v)
    fun _ m => ∃ i, m = .served i ⟨b, v⟩ := by
  refine safe_bind (Q := fun a m => a = v ∧ m = .ready b v) (safe_get ?_) ?_
  · intro st s spot hcore hplaces hm
    have hat := hplaces.at_ (.proc p)
    rw [hm] at hat
    obtain ⟨-, -, -, hbuf, -⟩ := hat
    refine ⟨.ready b v, ?_, hbuf, rfl⟩
    rw [← hm, update_eq_self]
    exact hplaces
  rintro a m ⟨rfl, rfl⟩
  refine safe_bind (Q := fun _ m => m = .ready b a) (safe_get ?_) ?_
  · intro st s spot hcore hplaces hm
    refine ⟨.ready b a, ?_, rfl⟩
    rw [← hm, update_eq_self]
    exact hplaces
  rintro havedisk1 m rfl
  by_cases hbusy : (!a.busy) = true
  · rw [if_pos hbusy]
    trivial
  rw [if_neg hbusy]
  by_cases hwanted : (a.valid && !a.dirty) = true
  · rw [if_pos hwanted]
    trivial
  rw [if_neg hwanted]
  by_cases hdisk : (a.dev ≠ 0 && !havedisk1) = true
  · rw [if_pos hdisk]
    trivial
  rw [if_neg hdisk]
  refine safe_then safe_acquire fun _ => ?_
  refine safe_bind (safe_submit (by simpa [Wanted] using hwanted)) ?_
  rintro - m ⟨i, rfl⟩
  refine safe_then (safe_await (r := ⟨b, a⟩)) fun _ => ?_
  apply safe_mono safe_release
  rintro - m rfl
  exact ⟨i, rfl⟩

/-- An idle process changes a buffer that is free or its own. -/
lemma Places.setBuf {o : Option Nat} (h : Places st s spot) (hp : spot (.proc p) = .idle)
    (hfree : s.owner b = none ∨ s.owner b = some p) (hm : m ≠ .due)
    (hat : m.At { s with owner := upd s.owner b o, buf := upd s.buf b v } (.proc p)) :
    Places st { s with owner := upd s.owner b o, buf := upd s.buf b v }
      (update spot (.proc p) m) := by
  refine h.own rfl rfl rfl ?_ rfl (by simp [hp]) (by simp [hp]) hm hat
  intro b' q hq ho
  have hne : b' ≠ b := by
    rintro rfl
    rw [ho] at hfree
    simp at hfree
    exact hq hfree
  exact ⟨by rw [← ho]; exact upd_ne hne, upd_ne hne⟩

/-- A call has returned. -/
lemma Core.note (h : Core d st s) {x : Nat × Request × Buf}
    (hx : s.queued[x.1]? = some x.2.1 ∧ s.results[x.1]? = some x.2.2) :
    Core d st { s with returned := s.returned ++ [x] } := by
  refine ⟨h.started, h.finished, h.executed, h.drive, h.results, h.rest, h.current, h.irq, h.reg,
    h.chain, h.sound, ?_⟩
  intro y hy
  rcases mem_append.mp hy with hy | hy
  · exact h.returned y hy
  · rwa [mem_singleton.mp hy]

lemma safe_call (hb : b < NBUF) :
    (call p b v turns).safe (outline d) (.proc p) .idle fun _ m => m = .idle := by
  refine safe_bind (Q := fun _ m => m = .ready b { v with busy := true }) ?_ ?_
  · intro s spot hinv hm hg _
    obtain ⟨st, hcore, hplaces⟩ := hinv
    refine ⟨trivial, .ready b { v with busy := true }, ⟨st, hcore.frame _ _ _ _, ?_⟩, rfl⟩
    exact hplaces.setBuf hm (by simpa using hg) (by simp)
      ⟨p, rfl, upd_same _ _ _, upd_same _ _ _, hb⟩
  rintro - m rfl
  refine safe_bind safe_iderw ?_
  rintro - m ⟨i, rfl⟩
  intro s spot hinv hm _ _
  obtain ⟨st, hcore, hplaces⟩ := hinv
  have hat := hplaces.at_ (.proc p)
  rw [hm] at hat
  obtain ⟨p', hp', ho, hi, hr, hres⟩ := hat
  obtain rfl := Tid.proc.inj hp'
  refine ⟨trivial, .idle, ⟨st, hcore.note (by rw [hi]; exact ⟨hr, hres⟩), ?_⟩, rfl⟩
  exact hplaces.own rfl rfl rfl (fun b q _ ho => ⟨ho, rfl⟩) rfl (by simp [hm]) (by simp [hm])
    (by simp) trivial

lemma safe_giveUp : (giveUp p b).safe (outline d) (.proc p) .idle fun _ m => m = .idle := by
  intro s spot hinv hm hg _
  obtain ⟨st, hcore, hplaces⟩ := hinv
  refine ⟨trivial, .idle, ⟨st, hcore.frame _ _ _ _, ?_⟩, rfl⟩
  exact hplaces.setBuf hm (.inr (by simpa using hg)) (by simp) trivial

lemma safe_execute : execute.safe (outline d) .disk .idle fun _ m => m = .idle := by
  intro s spot hinv hm hg _
  obtain ⟨st, hcore, hplaces⟩ := hinv
  obtain rfl := hcore.active_of_busy hg
  refine ⟨trivial, .idle, ⟨.done, hcore.execute, ?_⟩, rfl⟩
  rw [← hm, update_eq_self]
  obtain ⟨r, -, hctl⟩ := hcore.current (by simp)
  rw [State.execute_eq hctl (hcore.reg rfl)]
  exact hplaces.stage (by simp) rfl rfl rfl rfl rfl rfl

/-- A handler has to finish the first request. -/
lemma Places.interrupt {k : Nat} (h : Places .done s spot) :
    Places (.due (.intr k)) { s with irq := false } (update spot (.intr k) .due) := by
  constructor
  · intro t
    by_cases ht : t = .intr k
    · rw [ht, update_self]
      trivial
    · rw [update_of_ne ht]
      exact (h.stage (fun _ => Iff.rfl) rfl rfl rfl rfl rfl rfl).at_ t
  · intro t
    by_cases ht : t = .intr k
    · simp [ht]
    · rw [update_of_ne ht, h.due]
      simp [Ne.symm ht]
  · intro i r hi hr
    obtain ⟨hb, p, ho, hp⟩ := h.pending i r hi hr
    refine ⟨hb, p, ho, ?_⟩
    rw [update_of_ne (by simp)]
    exact hp

lemma safe_ideintr {k : Nat} :
    (ideintr (.intr k)).safe (outline d) (.intr k) .idle fun _ m => m = .idle := by
  refine safe_bind (Q := fun _ m => m = .due) ?_ ?_
  · intro s spot hinv hm hg _
    obtain ⟨st, hcore, hplaces⟩ := hinv
    have hdone : st = .done := by
      have hirq := hcore.irq
      rw [show s.irq = true from hg] at hirq
      simpa using hirq.symm
    subst hdone
    exact ⟨trivial, .due, ⟨.due (.intr k), hcore.interrupt _, hplaces.interrupt⟩, rfl⟩
  rintro - m rfl
  refine safe_then safe_acquire fun _ => ?_
  refine safe_bind (Q := fun _ m => m = .idle) ?_ ?_
  · intro s spot hinv hm _ _
    obtain ⟨st, hcore, hplaces⟩ := hinv
    obtain rfl := (hplaces.due _).mp hm
    obtain ⟨st', hcore', hplaces'⟩ := hcore.service hplaces
    exact ⟨trivial, .idle, ⟨st', hcore', hplaces'⟩, rfl⟩
  rintro - m rfl
  exact safe_release

end

/-! ### The driver of `memide.c` -/

/-- `iderw` of `memide.c` executes a request: the disk after it and the buffer, if it does not
panic. -/
def memide (m : Disk.State) (r : Request) : Option (Disk.State × Buf) :=
  match (Disk.iderw r.num).run (m.setBuf r.num fun _ => r.given) with
  | .ok _ m => some (m, m.buf r.num)
  | .stop _ _ => none

/-- Requests one after the other. -/
def memideAll (m : Disk.State) : List Request → Option (Disk.State × List Buf)
  | [] => some (m, [])
  | r :: rs => do
    let (m, v) ← memide m r
    let (m, vs) ← memideAll m rs
    pure (m, v :: vs)

/-- `disksize = (uint)_binary_fs_img_size/512`. -/
def disksize (size : Nat) : Nat := size % 2 ^ 32 / 512

lemma serveAll_cons (d : Nat → Nat → Bytes) (r : Request) (rs : List Request) :
    serveAll d (r :: rs) = ((serveAll (serve d r.given).1 rs).1,
      (serve d r.given).2 :: (serveAll (serve d r.given).1 rs).2) := by
  induction rs using List.reverseRecOn with
  | nil => rfl
  | append_singleton rs r' ih => rw [← cons_append, serveAll_snoc, ih, serveAll_snoc]; rfl

section

variable {d : Nat → Nat → Bytes} {m m' : Disk.State} {r : Request} {v : Buf}

/-- A request that `memide.c` executes is for drive 1 and within it, and `ide.c` does the same. -/
lemma memide_serve (h : memide m r = some (m', v)) (hdisk : m.disk = d 1)
    (hsize : m.disksize ≤ 2 ^ 28) :
    v = (serve d r.given).2 ∧ m'.disk = (serve d r.given).1 1 ∧ m'.disksize = m.disksize := by
  have hbuf : (m.setBuf r.num fun _ => r.given).buf r.num = r.given := upd_same _ _ _
  have hsize' : (m.setBuf r.num fun _ => r.given).disksize = m.disksize := rfl
  unfold memide at h
  simp only [Disk.iderw, Disk.read, run_bind, run_get, Res.andThen, hbuf, hsize'] at h
  by_cases hbusy : (!r.given.busy) = true
  · simp [hbusy] at h
  by_cases hwanted : (r.given.valid && !r.given.dirty) = true
  · simp [hbusy, hwanted] at h
  by_cases hdev : r.given.dev ≠ ROOTDEV
  · simp [hbusy, hwanted, hdev] at h
  by_cases hrange : m.disksize ≤ r.given.sector
  · simp [hbusy, hwanted, hdev, hrange] at h
  rw [if_neg hbusy, if_neg hwanted, if_neg hdev, if_neg hrange] at h
  rw [not_not] at hdev
  have hdrive : r.given.dev % 2 = 1 := by rw [hdev]; rfl
  have hsector : r.given.sector % 2 ^ 28 = r.given.sector := Nat.mod_eq_of_lt (by omega)
  unfold serve
  rw [hdrive, hsector]
  by_cases hd : r.given.dirty = true
  · rw [if_pos hd] at h ⊢
    obtain ⟨rfl, rfl⟩ := Prod.mk.inj (Option.some.inj h)
    simp [Disk.State.setBuf, hdisk]
  · rw [if_neg hd] at h ⊢
    obtain ⟨rfl, rfl⟩ := Prod.mk.inj (Option.some.inj h)
    have hclean : r.given.dirty = false := by simpa using hd
    simp [Disk.State.setBuf, hdisk, hclean]

/-- Requests that `memide.c` executes have the same effect with `ide.c`. -/
lemma memideAll_serveAll {rs : List Request} {vs : List Buf} (h : memideAll m rs = some (m', vs))
    (hdisk : m.disk = d 1) (hsize : m.disksize ≤ 2 ^ 28) :
    vs = (serveAll d rs).2 ∧ m'.disk = (serveAll d rs).1 1 := by
  induction rs generalizing d m vs with
  | nil =>
    obtain ⟨rfl, rfl⟩ := Prod.mk.inj (Option.some.inj h)
    exact ⟨rfl, hdisk⟩
  | cons r rs ih =>
    obtain ⟨⟨m1, v⟩, hv, h⟩ := Option.bind_eq_some_iff.mp h
    obtain ⟨⟨m2, vs'⟩, hvs, h⟩ := Option.bind_eq_some_iff.mp h
    obtain ⟨rfl, rfl⟩ := Prod.mk.inj (Option.some.inj h)
    obtain ⟨hv', hdisk', hsize'⟩ := memide_serve hv hdisk hsize
    obtain ⟨hvs', hd⟩ := ih hvs hdisk' (by omega)
    rw [serveAll_cons, hv', hvs']
    exact ⟨rfl, hd⟩

end

lemma serveAll_take (d : Nat → Nat → Bytes) (rs : List Request) (n : Nat) :
    (serveAll d (rs.take n)).2 = (serveAll d rs).2.take n := by
  induction rs generalizing d n with
  | nil => simp
  | cons r rs ih =>
    cases n with
    | zero => rfl
    | succ n => rw [take_succ_cons, serveAll_cons, serveAll_cons, take_succ_cons, ih]

/-! ### Runs -/

section

variable {drive : Nat → Nat → Bytes} {havedisk1 : Bool} {buf : Nat → Buf}
  {c : Threads Tid Unit State Panic}

lemma safe_calls (d : Nat → Nat → Bytes) (t : Tid) (q : I Unit) (h : Calls t q) :
    q.safe (outline d) t .idle fun _ m => m = .idle := by
  cases h with
  | iderw v turns hb => exact safe_call hb
  | giveUp p b => exact safe_giveUp
  | ideintr k => exact safe_ideintr
  | execute => exact safe_execute
  | rouse k p => exact safe_rouse

lemma core_boot : Core drive .rest (boot drive havedisk1 buf).state where
  started := rfl
  finished := rfl
  executed := rfl
  drive := rfl
  results := rfl
  rest := fun _ => ⟨rfl, rfl⟩
  current := by simp
  irq := rfl
  reg := by simp
  chain := rfl
  sound := by simp [boot]
  returned := by simp [boot]

lemma places_boot : Places .rest (boot drive havedisk1 buf).state fun _ => .idle where
  at_ := fun _ => trivial
  due := by simp
  pending := by simp [boot]

/-- Every state that is reached has the invariant. -/
lemma core_of_run (hrun : Threads.Run Calls (fun _ _ _ => True) (boot drive havedisk1 buf) c) :
    ∃ st, Core drive st c.state := by
  have hboot : Threads.Safe (outline drive) .idle (boot drive havedisk1 buf) :=
    Threads.safe_of_idle ⟨.rest, core_boot, places_boot⟩ fun _ => rfl
  obtain ⟨spot, ⟨st, hcore, -⟩, -⟩ := hboot.run hrun (safe_calls drive) fun _ _ _ _ => trivial
  exact ⟨st, hcore⟩

/-- **The disk driver is sequential.** Whatever processes, the disk and its interrupts do in
between, requests are started in the order in which they were queued, finished in that order, the
next one is started after the one before it has finished, and no request waits without one being
started. A call that has returned has its own request among the finished ones, with the buffer as it
then was, valid and clean. And if `memide.c` executes the requests that the disk has executed, in
this order, then drive 1 has the contents of its disk and the buffers of finished requests are those
that it gives back. -/
theorem ide_is_sequential (m : Disk.State) (size : Nat) (hdisk : m.disk = drive 1)
    (hsize : m.disksize = disksize size)
    (hrun : Threads.Run Calls (fun _ _ _ => True) (boot drive havedisk1 buf) c) :
    c.state.started <+: c.state.queued ∧ c.state.finished <+: c.state.started ∧
    c.state.started.length ≤ c.state.finished.length + 1 ∧
    (c.state.finished.length < c.state.queued.length →
      c.state.started.length = c.state.finished.length + 1) ∧
    (∀ i r v, (i, r, v) ∈ c.state.returned → c.state.finished[i]? = some r ∧
      c.state.results[i]? = some v ∧ v.valid = true ∧ v.dirty = false) ∧
    c.state.finished.length ≤ c.state.executed ∧ c.state.executed ≤ c.state.started.length ∧
    ∀ m' vs, memideAll m (c.state.queued.take c.state.executed) = some (m', vs) →
      c.state.drive 1 = m'.disk ∧ c.state.results = vs.take c.state.finished.length := by
  obtain ⟨st, h⟩ := core_of_run hrun
  have hstarted : c.state.started.length = c.state.finished.length + st.begun := by
    rw [h.started, length_take, Nat.min_eq_left h.begun_le]
  have hbegun : st.begun ≤ 1 := by cases st <;> simp [Stage.begun]
  have hover : st.ended ≤ st.begun := by cases st <;> simp [Stage.ended, Stage.begun]
  have hexecuted := h.executed
  refine ⟨?_, ?_, by omega, ?_, ?_, by omega, by omega, ?_⟩
  · rw [h.started]
    exact take_prefix _ _
  · rw [h.started]
    have hprefix := take_prefix_take_left (l := c.state.queued)
      (Nat.le_add_right c.state.finished.length st.begun)
    rwa [← h.finished] at hprefix
  · intro hlt
    cases st with
    | rest =>
      have hnil := (h.rest rfl).1
      rw [State.pending, drop_eq_nil_iff] at hnil
      omega
    | _ => exact hstarted
  · intro i r v hx
    obtain ⟨hq, hres⟩ := h.returned _ hx
    have hlt : i < c.state.finished.length := by
      rw [← h.results_length]
      exact (List.getElem?_eq_some_iff.mp hres).1
    have hmem : v ∈ (serveAll drive c.state.finished).2 := by
      rw [← h.results]
      exact mem_of_getElem? hres
    refine ⟨?_, hres, serveAll_flags v hmem⟩
    rw [h.finished, getElem?_take_of_lt hlt]
    exact hq
  · intro m' vs hm
    have hle : m.disksize ≤ 2 ^ 28 := by
      rw [hsize, disksize]
      omega
    obtain ⟨rfl, hd⟩ := memideAll_serveAll hm hdisk hle
    refine ⟨?_, ?_⟩
    · rw [h.drive, hd]
    · rw [h.results, ← serveAll_take, take_take, Nat.min_eq_left (by omega), ← h.finished]

end

/-- A clean buffer for sector 5 of drive 1. -/
def sampleBuf : Buf := ⟨1, 5, false, false, false, fun _ => 0⟩

/-- A small disk of zeros for `memide.c`. -/
def sampleDisk : Disk.State where
  disksize := disksize 10240
  disk := fun _ _ => 0
  buf := fun _ => sampleBuf
  mru := []
  log := ⟨0, 0, false, []⟩

/-- Process 0 writes a sector and process 1 reads it; the requests are queued one behind the other,
and process 1 returns first. -/
def writeAndRead : List (Threads.Move Tid Unit State Panic) :=
  [.start (.proc 0) (call 0 0 { sampleBuf with dirty := true, data := fun _ => 7 } 2),
    .acts (.proc 0) 7, .start (.proc 1) (call 1 1 sampleBuf 2), .acts (.proc 1) 7,
    .start .disk execute, .acts .disk 1, .start (.intr 0) (ideintr (.intr 0)), .acts (.intr 0) 4,
    .start .disk execute, .acts .disk 1, .start (.intr 1) (ideintr (.intr 1)), .acts (.intr 1) 4,
    .acts (.proc 1) 5, .acts (.proc 0) 5]

lemma writeAndRead_calls (t : Tid) (q : I Unit) (h : .start t q ∈ writeAndRead) : Calls t q := by
  simp only [writeAndRead, mem_cons, reduceCtorEq, false_or, or_false, not_mem_nil,
    Threads.Move.start.injEq] at h
  rcases h with ⟨rfl, rfl⟩ | ⟨rfl, rfl⟩ | ⟨rfl, rfl⟩ | ⟨rfl, rfl⟩ | ⟨rfl, rfl⟩ | ⟨rfl, rfl⟩
  · exact .iderw _ _ (by decide)
  · exact .iderw _ _ (by decide)
  · exact .execute
  · exact .ideintr 0
  · exact .execute
  · exact .ideintr 1

theorem ide_is_sequential_two : ∃ c,
    Threads.Run Calls (fun _ _ _ => True) (boot (fun _ _ _ => 0) true fun _ => sampleBuf) c ∧
    c.state.returned.map Prod.fst = [1, 0] ∧
    c.state.results.map (fun v => v.data 0) = [7, 7] ∧
    c.state.started <+: c.state.queued ∧ c.state.finished <+: c.state.started := by
  have hexec : (Threads.exec (fun _ _ _ => true) writeAndRead
      (boot (fun _ _ _ => 0) true fun _ => sampleBuf)).map
        (fun c => (c.state.returned.map Prod.fst, c.state.results.map fun v => v.data 0)) =
      some ([1, 0], [7, 7]) := by decide +kernel
  obtain ⟨c, hc, hlogs⟩ := Option.map_eq_some_iff.mp hexec
  obtain ⟨hreturned, hresults⟩ := Prod.mk.inj hlogs
  have hrun : Threads.Run Calls (fun _ _ _ => True)
      (boot (fun _ _ _ => 0) true fun _ => sampleBuf) c :=
    Threads.exec_run hc (fun _ _ _ _ => trivial) writeAndRead_calls
  have h := ide_is_sequential sampleDisk 10240 rfl rfl hrun
  exact ⟨c, hrun, hreturned, hresults, h.1, h.2.1⟩

end Xv6.Ide
