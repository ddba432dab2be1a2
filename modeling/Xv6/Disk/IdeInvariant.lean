import Xv6.Disk.Ide

/-!
# The invariant of the disk driver

A sequential driver executes requests one after the other. The state of `ide.c` is that of the
sequential driver after the finished requests, with the first of the others at some stage; what
processes and handlers of interrupts do leads to the next stage.
-/

namespace Xv6.Ide

open Lib Disk Prog List Function

/-! ### The sequential driver -/

/-- The command for a buffer. -/
def commandOf (v : Buf) : Ctl :=
  if v.dirty then .writing (v.dev % 2) (v.sector % 2 ^ 28) v.data
  else .reading (v.dev % 2) (v.sector % 2 ^ 28)

/-- The controller when the command for a buffer has been executed. -/
def outcomeOf (d : Nat → Nat → Bytes) (v : Buf) : Ctl :=
  if v.dirty then .ready else .full (d (v.dev % 2) (v.sector % 2 ^ 28))

/-- What a request does to the drives, and the buffer that comes back. -/
def serve (d : Nat → Nat → Bytes) (v : Buf) : (Nat → Nat → Bytes) × Buf :=
  if v.dirty then
    (upd d (v.dev % 2) (upd (d (v.dev % 2)) (v.sector % 2 ^ 28) v.data),
      { v with valid := true, dirty := false })
  else (d, { v with data := d (v.dev % 2) (v.sector % 2 ^ 28), valid := true, dirty := false })

/-- Requests one after the other: the drives, and the buffers that come back. -/
def serveAll (d : Nat → Nat → Bytes) (rs : List Request) : (Nat → Nat → Bytes) × List Buf :=
  rs.foldl (fun x r => ((serve x.1 r.given).1, x.2 ++ [(serve x.1 r.given).2])) (d, [])

section

variable {d : Nat → Nat → Bytes} {rs : List Request} {r : Request}

@[simp] lemma serveAll_nil : serveAll d [] = (d, []) := rfl

@[simp] lemma serveAll_snoc : serveAll d (rs ++ [r]) =
    ((serve (serveAll d rs).1 r.given).1,
      (serveAll d rs).2 ++ [(serve (serveAll d rs).1 r.given).2]) := by
  simp [serveAll]

lemma serve_flags (v : Buf) : (serve d v).2.valid = true ∧ (serve d v).2.dirty = false := by
  unfold serve
  split_ifs <;> simp

lemma serveAll_flags : ∀ v ∈ (serveAll d rs).2, v.valid = true ∧ v.dirty = false := by
  induction rs using List.reverseRecOn with
  | nil => simp
  | append_singleton rs r ih =>
    intro v hv
    rw [serveAll_snoc] at hv
    rcases mem_append.mp hv with hv | hv
    · exact ih v hv
    · rw [mem_singleton.mp hv]
      exact serve_flags _

end

/-! ### The queue and the controller -/

namespace State

variable {s : State} {l : List Nat} {b : Nat}

/-- The loop of `iderw` comes to the last buffer of the queue. -/
lemma queueEnd_eq {k : Nat} {q : Option Nat} (h : Chain s.qnext (s.deref q) l)
    (hk : l.length ≤ k) : s.queueEnd k q = l.getLast?.or q := by
  induction l generalizing k q with
  | nil =>
    cases k with
    | zero => rfl
    | succ k => simp [queueEnd, Chain.nil_iff.mp h]
  | cons a l ih =>
    cases k with
    | zero => simp at hk
    | succ k =>
      have hrest := ih (q := some a) h.2 (by simpa using hk)
      rw [queueEnd, h.1]
      simp only [hrest]
      cases l with
      | nil => simp
      | cons c l =>
        rw [getLast?_cons_cons, getLast?_eq_some_getLast (cons_ne_nil c l)]
        rfl

/-- A buffer is put behind the others. -/
lemma append_eq (h : Chain s.qnext s.idequeue l) (hl : l.Nodup) (hlen : l.length ≤ NBUF)
    (hb : b ∉ l) : ∃ q first, s.append b = { s with qnext := q, idequeue := first } ∧
      Chain q first (l ++ [b]) := by
  have hclear := h.upd hb none
  unfold append
  simp only
  rw [queueEnd_eq (l := l) (by exact hclear) hlen]
  rcases eq_nil_or_concat l with rfl | ⟨l', a, rfl⟩
  · exact ⟨_, _, rfl, by simp⟩
  · rw [concat_eq_append] at hclear hl hb ⊢
    rw [getLast?_concat]
    exact ⟨_, _, rfl, hclear.snoc hl hb (upd_same _ _ _)⟩

/-- The controller gets the drive and the sector of the buffer, and interrupts are enabled. -/
lemma idestart_eq (s : State) (b : Nat) : ∃ reg, reg 0x3f6 = 0 ∧ s.idestart b =
    { s with
      started := s.started ++ [⟨b, s.buf b⟩]
      reg := reg
      ctl := commandOf (s.buf b) } := by
  have hdrive : ∀ d k : Nat, (0xe0 + d % 2 * 2 ^ 4 + k % 2 ^ 4) % 2 ^ 8 / 16 % 2 = d % 2 := by omega
  have hsector : ∀ d k : Nat, k % 2 ^ 8 % 2 ^ 8 + k / 2 ^ 8 % 2 ^ 8 % 2 ^ 8 * 2 ^ 8 +
      k / 2 ^ 16 % 2 ^ 8 % 2 ^ 8 * 2 ^ 16 +
      (0xe0 + d % 2 * 2 ^ 4 + k / 2 ^ 24 % 2 ^ 4) % 2 ^ 8 % 16 * 2 ^ 24 = k % 2 ^ 28 := by omega
  refine ⟨(s.idestart b).reg, ?_, ?_⟩
  · dsimp only [idestart]
    split_ifs <;> rfl
  · conv_rhs =>
      unfold commandOf
      rw [← hdrive (s.buf b).dev ((s.buf b).sector / 2 ^ 24),
        ← hsector (s.buf b).dev (s.buf b).sector]
    dsimp only [idestart]
    split_ifs <;> rfl

/-- The disk executes the command for a buffer. -/
lemma execute_eq {v : Buf} (hctl : s.ctl = commandOf v) (hreg : s.reg 0x3f6 = 0) :
    s.execute = { s with
      ctl := outcomeOf s.drive v
      drive := (serve s.drive v).1
      irq := true
      executed := s.executed + 1 } := by
  unfold commandOf at hctl
  unfold execute outcomeOf serve
  split_ifs at hctl ⊢ <;> simp [hctl, hreg]

/-- The buffer of a finished request is as after the sequential driver. -/
lemma finish_eq (hctl : s.ctl = outcomeOf s.drive (s.buf b)) :
    s.finish b = { s with
      ctl := .ready
      buf := upd s.buf b (serve s.drive (s.buf b)).2
      asleep := (s.wakeup b).asleep
      finished := s.finished ++ [⟨b, s.buf b⟩]
      results := s.results ++ [(serve s.drive (s.buf b)).2] } := by
  unfold outcomeOf at hctl
  unfold finish serve
  split_ifs at hctl ⊢ with hd <;> simp [hctl, insl, wakeup]

lemma service_last (h : s.idequeue = some b)
    (h' : ({ s with idequeue := s.qnext b }.finish b).idequeue = none) :
    s.service = { s with idequeue := s.qnext b }.finish b := by
  simp [service, h, h']

lemma service_next {b' : Nat} (h : s.idequeue = some b)
    (h' : ({ s with idequeue := s.qnext b }.finish b).idequeue = some b') :
    s.service = ({ s with idequeue := s.qnext b }.finish b).idestart b' := by
  simp [service, h, h']

end State

/-! ### The invariant -/

/-- How far the first request is: there is none, the disk works on it, the disk has asked for an
interrupt, or a handler has been started. -/
inductive Stage
  | rest
  | active
  | done
  | due (t : Tid)
  deriving DecidableEq

namespace Stage

/-- How many unfinished requests have been started. -/
def begun : Stage → Nat
  | rest => 0
  | active => 1
  | done => 1
  | due _ => 1

/-- How many of them the disk has executed. -/
def ended : Stage → Nat
  | rest => 0
  | active => 0
  | done => 1
  | due _ => 1

/-- The controller, when the first request is for the buffer `v`. -/
def ctl (st : Stage) (d : Nat → Nat → Bytes) (v : Buf) : Ctl :=
  match st with
  | rest => .ready
  | active => commandOf v
  | done => outcomeOf d v
  | due _ => outcomeOf d v

end Stage

/-- Where a thread is: a process has a buffer for which it will queue a request, its request has a
number and may be unfinished, or it is finished; a handler has to finish the first request. -/
inductive Spot
  | idle
  | ready (b : Nat) (v : Buf)
  | queued (i : Nat) (r : Request)
  | served (i : Nat) (r : Request)
  | due

/-- The requests that are not finished. -/
def State.pending (s : State) : List Request := s.queued.drop s.finished.length

/-- There is something to do for a buffer. -/
def Wanted (v : Buf) : Prop := (v.valid && !v.dirty) = false

/-- The state, with the first request at stage `st`. -/
structure Core (d : Nat → Nat → Bytes) (st : Stage) (s : State) : Prop where
  started : s.started = s.queued.take (s.finished.length + st.begun)
  finished : s.finished = s.queued.take s.finished.length
  executed : s.executed = s.finished.length + st.ended
  drive : s.drive = (serveAll d (s.queued.take s.executed)).1
  results : s.results = (serveAll d s.finished).2
  rest : st = .rest → s.pending = [] ∧ s.ctl = .ready
  current : st ≠ .rest → ∃ r, s.pending.head? = some r ∧ s.ctl = st.ctl s.drive r.given
  irq : s.irq = decide (st = .done)
  reg : st = .active → s.reg 0x3f6 = 0
  chain : Chain s.qnext s.idequeue (s.pending.map Request.num)
  sound : ∀ r ∈ s.queued, r.num < NBUF ∧ Wanted r.given
  returned : ∀ x ∈ s.returned, s.queued[x.1]? = some x.2.1 ∧ s.results[x.1]? = some x.2.2

/-- What a thread knows. -/
def Spot.At (s : State) (t : Tid) : Spot → Prop
  | idle => True
  | ready b v => ∃ p, t = .proc p ∧ s.owner b = some p ∧ s.buf b = v ∧ b < NBUF
  | queued i r => ∃ p, t = .proc p ∧ s.owner r.num = some p ∧ s.ticket p = i ∧
      s.queued[i]? = some r ∧ (i < s.finished.length → s.results[i]? = some (s.buf r.num))
  | served i r => ∃ p, t = .proc p ∧ s.owner r.num = some p ∧ s.ticket p = i ∧
      s.queued[i]? = some r ∧ s.results[i]? = some (s.buf r.num)
  | due => True

/-- The threads: the buffer of an unfinished request is as it was given, and its owner waits. -/
structure Places (st : Stage) (s : State) (spot : Tid → Spot) : Prop where
  at_ : ∀ t, (spot t).At s t
  due : ∀ t, spot t = .due ↔ st = .due t
  pending : ∀ i r, s.finished.length ≤ i → s.queued[i]? = some r →
    s.buf r.num = r.given ∧ ∃ p, s.owner r.num = some p ∧ spot (.proc p) = .queued i r

def outline (d : Nat → Nat → Bytes) : Outline Tid Unit State Spot where
  inv s spot := ∃ st, Core d st s ∧ Places st s spot
  guar _ _ _ _ := True
  cond _ _ _ := True

section

variable {d : Nat → Nat → Bytes} {st : Stage} {s s' : State} {spot : Tid → Spot} {p b : Nat}
  {m : Spot}

/-- The lock, the sleepers, the owners and the buffers are not spoken of. -/
lemma Core.frame (h : Core d st s) (lock : Option Tid) (asleep owner : Nat → Option Nat)
    (buf : Nat → Buf) :
    Core d st { s with idelock := lock, asleep := asleep, owner := owner, buf := buf } :=
  ⟨h.started, h.finished, h.executed, h.drive, h.results, h.rest, h.current, h.irq, h.reg, h.chain,
    h.sound, h.returned⟩

/-- What a thread knows stays, when its buffers do and requests and results are only added. -/
lemma Spot.At.keep {t : Tid} (h : m.At s t)
    (howner : ∀ b q, t = .proc q → s.owner b = some q → s'.owner b = some q ∧ s'.buf b = s.buf b)
    (hticket : ∀ q, t = .proc q → s'.ticket q = s.ticket q) (hqueued : s.queued <+: s'.queued)
    (hresults : s.results <+: s'.results)
    (hfinished : ∀ i r, m = .queued i r → i < s'.finished.length → i < s.finished.length) :
    m.At s' t := by
  have hget : ∀ {α : Type} {l l' : List α} {i : Nat} {a : α}, l <+: l' → l[i]? = some a →
      l'[i]? = some a := by
    rintro α l _ i a ⟨l', rfl⟩ hi
    rwa [getElem?_append_left (List.getElem?_eq_some_iff.mp hi).1]
  cases m with
  | idle => trivial
  | due => trivial
  | ready b v =>
    obtain ⟨q, rfl, ho, hb, hlt⟩ := h
    obtain ⟨ho', hb'⟩ := howner b q rfl ho
    exact ⟨q, rfl, ho', hb'.trans hb, hlt⟩
  | queued i r =>
    obtain ⟨q, rfl, ho, hi, hr, hres⟩ := h
    obtain ⟨ho', hb'⟩ := howner r.num q rfl ho
    refine ⟨q, rfl, ho', (hticket q rfl).trans hi, hget hqueued hr, fun hlt => ?_⟩
    rw [hb']
    exact hget hresults (hres (hfinished i r rfl hlt))
  | served i r =>
    obtain ⟨q, rfl, ho, hi, hr, hres⟩ := h
    obtain ⟨ho', hb'⟩ := howner r.num q rfl ho
    exact ⟨q, rfl, ho', (hticket q rfl).trans hi, hget hqueued hr, hb' ▸ hget hresults hres⟩

/-- What is not spoken of changes, and the stage as far as no handler has been started. -/
lemma Places.stage {st' : Stage} (h : Places st s spot)
    (hst : ∀ t, st' = .due t ↔ st = .due t) (hqueued : s'.queued = s.queued)
    (hfinished : s'.finished = s.finished) (hresults : s'.results = s.results)
    (howner : s'.owner = s.owner) (hbuf : s'.buf = s.buf) (hticket : s'.ticket = s.ticket) :
    Places st' s' spot := by
  refine ⟨fun t => (h.at_ t).keep (fun b q _ ho => ⟨by rw [howner, ho], by rw [hbuf]⟩)
    (fun q _ => by rw [hticket]) (hqueued ▸ prefix_rfl) (hresults ▸ prefix_rfl)
    fun i r _ hi => hfinished ▸ hi, fun t => ?_, ?_⟩
  · rw [hst, h.due]
  · rw [hqueued, hfinished, hbuf, howner]
    exact h.pending

/-- A process changes what belongs to no other one, when it has no unfinished request. -/
lemma Places.own (h : Places st s spot) (hqueued : s'.queued = s.queued)
    (hfinished : s'.finished = s.finished) (hresults : s'.results = s.results)
    (howner : ∀ b q, q ≠ p → s.owner b = some q → s'.owner b = some q ∧ s'.buf b = s.buf b)
    (hticket : s'.ticket = s.ticket)
    (hp : ∀ i r, spot (.proc p) = .queued i r → i < s.finished.length)
    (hdue : spot (.proc p) ≠ .due) (hm : m ≠ .due) (hat : m.At s' (.proc p)) :
    Places st s' (update spot (.proc p) m) where
  at_ := by
    intro t
    by_cases ht : t = .proc p
    · subst ht
      rwa [update_self]
    rw [update_of_ne ht]
    refine (h.at_ t).keep (fun b q hq ho => howner b q ?_ ho) (fun q _ => by rw [hticket])
      (hqueued ▸ prefix_rfl) (hresults ▸ prefix_rfl) fun i r _ hi => hfinished ▸ hi
    rintro rfl
    exact ht hq
  due := by
    intro t
    by_cases ht : t = .proc p
    · subst ht
      rw [update_self, ← h.due]
      exact iff_of_false hm hdue
    · rw [update_of_ne ht, h.due]
  pending := by
    intro i r hi hr
    rw [hfinished] at hi
    rw [hqueued] at hr
    obtain ⟨hb, q, ho, hq⟩ := h.pending i r hi hr
    have hqp : q ≠ p := by
      rintro rfl
      exact absurd (hp i _ hq) (by omega)
    obtain ⟨ho', hb'⟩ := howner _ q hqp ho
    refine ⟨hb'.trans hb, q, ho', ?_⟩
    rwa [update_of_ne (by simpa using hqp)]

lemma Core.finished_le (h : Core d st s) : s.finished.length ≤ s.queued.length := by
  rw [h.finished, length_take]
  omega

lemma Core.pending_ne_nil (h : Core d st s) (hst : st ≠ .rest) :
    s.finished.length < s.queued.length := by
  obtain ⟨r, hr, -⟩ := h.current hst
  have hlen : 0 < s.pending.length := by
    cases hp : s.pending with
    | nil => simp [hp] at hr
    | cons r l => simp
  rw [State.pending, length_drop] at hlen
  omega

lemma Core.begun_le (h : Core d st s) : s.finished.length + st.begun ≤ s.queued.length := by
  cases st with
  | rest => exact h.finished_le
  | _ => exact h.pending_ne_nil (by simp)

lemma Core.executed_le (h : Core d st s) : s.executed ≤ s.queued.length := by
  have hover : st.ended ≤ st.begun := by cases st <;> simp [Stage.ended, Stage.begun]
  rw [h.executed]
  exact (Nat.add_le_add_left hover _).trans h.begun_le

lemma getElem?_pending {i : Nat} : s.pending[i]? = s.queued[s.finished.length + i]? := by
  rw [State.pending, getElem?_drop]

/-- No buffer is in the queue twice. -/
lemma Places.nodup (h : Places st s spot) : (s.pending.map Request.num).Nodup := by
  rw [nodup_iff_getElem?_ne_getElem?]
  intro i j hij hj heq
  rw [length_map] at hj
  obtain ⟨r, hr⟩ : ∃ r, s.pending[i]? = some r := ⟨_, getElem?_eq_getElem (by omega)⟩
  obtain ⟨r', hr'⟩ : ∃ r, s.pending[j]? = some r := ⟨_, getElem?_eq_getElem hj⟩
  simp only [getElem?_map, hr, hr', Option.map_some, Option.some.injEq] at heq
  rw [getElem?_pending] at hr hr'
  obtain ⟨-, q, ho, hq⟩ := h.pending _ r (by omega) hr
  obtain ⟨-, q', ho', hq'⟩ := h.pending _ r' (by omega) hr'
  rw [heq, ho'] at ho
  obtain rfl := Option.some.inj ho
  rw [hq'] at hq
  obtain ⟨hn, -⟩ := Spot.queued.inj hq
  omega

lemma Places.not_mem {v : Buf} (h : Places st s spot) (hp : spot (.proc p) = .ready b v) :
    b ∉ s.pending.map Request.num := by
  intro hb
  obtain ⟨r, hr, rfl⟩ := mem_map.mp hb
  obtain ⟨i, hi⟩ := mem_iff_getElem?.mp hr
  rw [getElem?_pending] at hi
  obtain ⟨-, q, ho, hq⟩ := h.pending _ r (by omega) hi
  have hat := h.at_ (.proc p)
  rw [hp] at hat
  obtain ⟨p', hp', ho', -⟩ := hat
  obtain rfl := Tid.proc.inj hp'
  rw [ho] at ho'
  obtain rfl := Option.some.inj ho'
  rw [hp] at hq
  cases hq

lemma Core.pending_le (h : Core d st s) (hspot : Places st s spot) :
    (s.pending.map Request.num).length ≤ NBUF := by
  have hsub : s.pending.map Request.num ⊆ List.range NBUF := by
    intro b hb
    obtain ⟨r, hr, rfl⟩ := mem_map.mp hb
    rw [mem_range]
    exact (h.sound r (mem_of_mem_drop hr)).1
  have hle := (subperm_of_subset hspot.nodup hsub).length_le
  rwa [length_range] at hle

lemma serveAll_length (rs : List Request) : (serveAll d rs).2.length = rs.length := by
  induction rs using List.reverseRecOn with
  | nil => rfl
  | append_singleton rs r ih => simp [ih]

lemma Core.results_length (h : Core d st s) : s.results.length = s.finished.length := by
  rw [h.results, serveAll_length]

/-! ### A request is queued -/

lemma Core.finished_queued (h : Core d st s) (r : Request) :
    s.finished = (s.queued ++ [r]).take s.finished.length := by
  rw [take_append_of_le_length h.finished_le]
  exact h.finished

lemma Core.drive_queued (h : Core d st s) (r : Request) :
    s.drive = (serveAll d ((s.queued ++ [r]).take s.executed)).1 := by
  rw [take_append_of_le_length h.executed_le]
  exact h.drive

lemma Core.returned_queued (h : Core d st s) (r : Request) : ∀ x ∈ s.returned,
    (s.queued ++ [r])[x.1]? = some x.2.1 ∧ s.results[x.1]? = some x.2.2 := by
  intro x hx
  obtain ⟨hq, hres⟩ := h.returned x hx
  rw [getElem?_append_left (List.getElem?_eq_some_iff.mp hq).1]
  exact ⟨hq, hres⟩

/-- A request is put behind others. -/
lemma Core.enqueue {r : Request} {q : Nat → Option Nat} {first : Option Nat} {ticket : Nat → Nat}
    (h : Core d st s) (hst : st ≠ .rest) (hr : r.num < NBUF ∧ Wanted r.given)
    (hchain : Chain q first (s.pending.map Request.num ++ [r.num])) :
    Core d st { s with
      ticket := ticket, queued := s.queued ++ [r], qnext := q, idequeue := first } where
  started := by
    change _ = (s.queued ++ [r]).take _
    rw [take_append_of_le_length h.begun_le]
    exact h.started
  finished := h.finished_queued r
  executed := h.executed
  drive := h.drive_queued r
  results := h.results
  rest := fun e => absurd e hst
  current := by
    intro _
    obtain ⟨r', hr', hctl⟩ := h.current hst
    refine ⟨r', ?_, hctl⟩
    change ((s.queued ++ [r]).drop _).head? = _
    rw [drop_append_of_le_length h.finished_le, head?_append]
    change (s.pending.head?.or _) = _
    rw [hr']
    rfl
  irq := h.irq
  reg := h.reg
  chain := by
    change Chain q first (((s.queued ++ [r]).drop _).map _)
    rw [drop_append_of_le_length h.finished_le, map_append]
    exact hchain
  sound := by
    intro r' hr'
    rcases mem_append.mp hr' with hr' | hr'
    · exact h.sound r' hr'
    · rwa [mem_singleton.mp hr']
  returned := h.returned_queued r

/-- The first request is queued and started. -/
lemma Core.first {r : Request} {q : Nat → Option Nat} {reg : Nat → Nat} {ticket : Nat → Nat}
    (h : Core d .rest s) (hr : r.num < NBUF ∧ Wanted r.given) (hreg : reg 0x3f6 = 0)
    (hnext : q r.num = none) :
    Core d .active { s with
      ticket := ticket, queued := s.queued ++ [r], qnext := q, idequeue := some r.num
      started := s.started ++ [r], reg := reg, ctl := commandOf r.given } := by
  have hlen : s.finished.length = s.queued.length := by
    have hnil := (h.rest rfl).1
    have := h.finished_le
    rw [State.pending, drop_eq_nil_iff] at hnil
    omega
  have hfin : s.finished = s.queued := by rw [h.finished, hlen, take_length]
  have hexec := h.executed
  exact {
    started := by
      change s.started ++ [r] = (s.queued ++ [r]).take _
      rw [h.started, hlen]
      simp [Stage.begun]
    finished := h.finished_queued r
    executed := h.executed
    drive := h.drive_queued r
    results := h.results
    rest := by simp
    current := by
      intro _
      refine ⟨r, ?_, rfl⟩
      change ((s.queued ++ [r]).drop _).head? = _
      rw [hlen]
      simp
    irq := h.irq
    reg := fun _ => hreg
    chain := by
      change Chain q _ (((s.queued ++ [r]).drop _).map _)
      rw [hlen]
      simp [hnext]
    sound := by
      intro r' hr'
      rcases mem_append.mp hr' with hr' | hr'
      · exact h.sound r' hr'
      · rwa [mem_singleton.mp hr']
    returned := h.returned_queued r }

/-- The caller moves from `ready` to `queued`. -/
lemma Places.submit {st' : Stage} {v : Buf} (h : Places st s spot)
    (hp : spot (.proc p) = .ready b v) (hle : s.finished.length ≤ s.queued.length)
    (hst : ∀ t, st' = .due t ↔ st = .due t) (hqueued : s'.queued = s.queued ++ [⟨b, v⟩])
    (hticket : s'.ticket = upd s.ticket p s.queued.length) (hfinished : s'.finished = s.finished)
    (hresults : s'.results = s.results) (howner : s'.owner = s.owner) (hbuf : s'.buf = s.buf) :
    Places st' s' (update spot (.proc p) (.queued s.queued.length ⟨b, v⟩)) := by
  have hself := h.at_ (.proc p)
  rw [hp] at hself
  obtain ⟨p', hp', ho, hv, -⟩ := hself
  obtain rfl := Tid.proc.inj hp'
  have hold : ∀ i, i < s.queued.length → s'.queued[i]? = s.queued[i]? := by
    intro i hi
    rw [hqueued, getElem?_append_left hi]
  have hnew : s'.queued[s.queued.length]? = some ⟨b, v⟩ := by simp [hqueued]
  constructor
  · intro t
    by_cases ht : t = .proc p
    · subst ht
      rw [update_self]
      refine ⟨p, rfl, by rw [howner, ho], by rw [hticket, upd_same], hnew, ?_⟩
      intro hlt
      rw [hfinished] at hlt
      omega
    rw [update_of_ne ht]
    refine (h.at_ t).keep (fun b' q _ ho' => ⟨by rw [howner, ho'], by rw [hbuf]⟩) (fun q hq => ?_)
      (hqueued ▸ prefix_append _ _) (hresults ▸ prefix_rfl) fun i r _ hi => hfinished ▸ hi
    rw [hticket, upd_ne]
    rintro rfl
    exact ht hq
  · intro t
    by_cases ht : t = .proc p
    · subst ht
      rw [update_self, hst, ← h.due, hp]
      simp
    · rw [update_of_ne ht, hst, h.due]
  · intro i r hi hr
    rw [hfinished] at hi
    rw [hbuf, howner]
    by_cases hlt : i < s.queued.length
    · rw [hold i hlt] at hr
      obtain ⟨hb, q, ho', hq⟩ := h.pending i r hi hr
      refine ⟨hb, q, ho', ?_⟩
      rw [update_of_ne ?_]
      · exact hq
      · intro e
        rw [Tid.proc.inj e, hp] at hq
        cases hq
    · have hi' : i = s.queued.length := by
        have := (List.getElem?_eq_some_iff.mp hr).1
        rw [hqueued, length_append, length_singleton] at this
        omega
      subst hi'
      rw [hnew] at hr
      obtain rfl := Option.some.inj hr
      exact ⟨hv, p, ho, update_self ..⟩

/-- `iderw` keeps the invariant as it queues a request. -/
lemma Core.submit {v : Buf} (h : Core d st s) (hspot : Places st s spot)
    (hp : spot (.proc p) = .ready b v) (hv : Wanted v) :
    ∃ st, Core d st (s.submit p b) ∧ Places st (s.submit p b)
      (update spot (.proc p) (.queued s.queued.length ⟨b, v⟩)) := by
  have hself := hspot.at_ (.proc p)
  rw [hp] at hself
  obtain ⟨p', hp', -, rfl, hlt⟩ := hself
  unfold State.submit
  simp only
  obtain ⟨q, first, happ, hchain⟩ := State.append_eq (s := { s with
    ticket := upd s.ticket p s.queued.length, queued := s.queued ++ [Request.mk b (s.buf b)] })
    h.chain hspot.nodup (h.pending_le hspot) (hspot.not_mem hp)
  rw [happ]
  by_cases hst : st = .rest
  · subst hst
    have hnil := (h.rest rfl).1
    rw [hnil] at hchain
    obtain ⟨rfl, hnext⟩ := hchain
    obtain ⟨reg, hreg, hstart⟩ := State.idestart_eq { s with
      ticket := upd s.ticket p s.queued.length, queued := s.queued ++ [Request.mk b (s.buf b)],
      qnext := q, idequeue := some b } b
    rw [if_pos rfl, hstart]
    refine ⟨.active, h.first (r := ⟨b, s.buf b⟩) ⟨hlt, hv⟩ hreg (Chain.nil_iff.mp hnext), ?_⟩
    exact hspot.submit hp h.finished_le (by simp) rfl rfl rfl rfl rfl rfl
  · obtain ⟨r, hr, -⟩ := h.current hst
    have hfirst : first = some r.num := by
      rw [hchain.eq_head?, head?_append, head?_map, hr]
      rfl
    have hne : first ≠ some b := by
      intro e
      rw [hfirst, Option.some.injEq] at e
      subst e
      exact hspot.not_mem hp (mem_map_of_mem (mem_of_head? hr))
    rw [if_neg hne]
    refine ⟨st, h.enqueue hst ⟨hlt, hv⟩ hchain, ?_⟩
    exact hspot.submit hp h.finished_le (fun _ => Iff.rfl) rfl rfl rfl rfl rfl rfl

/-! ### A request is executed and finished -/

lemma outcomeOf_serve (v : Buf) : outcomeOf (serve s.drive v).1 v = outcomeOf s.drive v := by
  unfold outcomeOf serve
  split_ifs <;> rfl

lemma not_busy_outcomeOf (v : Buf) : (outcomeOf s.drive v).busy = false := by
  unfold outcomeOf
  split_ifs <;> rfl

lemma Core.active_of_busy (h : Core d st s) (hbusy : s.ctl.busy = true) : st = .active := by
  by_cases hst : st = .rest
  · rw [(h.rest hst).2] at hbusy
    cases hbusy
  obtain ⟨r, -, hctl⟩ := h.current hst
  rw [hctl] at hbusy
  cases st with
  | rest => exact absurd rfl hst
  | active => rfl
  | _ => exact absurd ((not_busy_outcomeOf r.given).symm.trans hbusy) Bool.false_ne_true

/-- The first request, among all. -/
lemma Core.take_succ {r : Request} (hr : s.pending.head? = some r) :
    s.queued.take (s.finished.length + 1) = s.queued.take s.finished.length ++ [r] := by
  rw [head?_eq_getElem?, getElem?_pending, Nat.add_zero] at hr
  rw [take_add_one, hr]
  rfl

/-- The disk executes the first request. -/
lemma Core.execute (h : Core d .active s) : Core d .done s.execute := by
  obtain ⟨r, hr, hctl⟩ := h.current (by simp)
  rw [State.execute_eq hctl (h.reg rfl)]
  exact {
    started := h.started
    finished := h.finished
    executed := by
      change s.executed + 1 = _
      rw [h.executed]
      rfl
    drive := by
      change (serve s.drive r.given).1 = (serveAll d (s.queued.take (s.executed + 1))).1
      have hexec : s.executed = s.finished.length := h.executed
      rw [hexec, Core.take_succ hr, serveAll_snoc, h.drive, hexec]
    results := h.results
    rest := by simp
    current := fun _ => ⟨r, hr, (outcomeOf_serve r.given).symm⟩
    irq := rfl
    reg := by simp
    chain := h.chain
    sound := h.sound
    returned := h.returned }

/-- A handler is started. -/
lemma Core.interrupt (h : Core d .done s) (t : Tid) : Core d (.due t) { s with irq := false } :=
  { started := h.started
    finished := h.finished
    executed := h.executed
    drive := h.drive
    results := h.results
    rest := by simp
    current := fun _ => h.current (by simp)
    irq := by simp
    reg := by simp
    chain := h.chain
    sound := h.sound
    returned := h.returned }

lemma serve_serve (e : Nat → Nat → Bytes) (v : Buf) :
    (serve (serve e v).1 v).2 = (serve e v).2 := by
  unfold serve
  split_ifs <;> rfl

section

variable {t : Tid} {r r' : Request} {rs : List Request} {asleep : Nat → Option Nat}
  {reg : Nat → Nat}

lemma Core.finished_snoc (h : Core d st s) (hr : s.pending = r :: rs) :
    s.finished ++ [r] = s.queued.take (s.finished ++ [r]).length := by
  rw [length_append, length_singleton, Core.take_succ (r := r) (by rw [hr]; rfl),
    ← h.finished]

lemma pending_snoc (hr : s.pending = r :: rs) :
    s.queued.drop (s.finished ++ [r]).length = rs := by
  rw [length_append, length_singleton, ← drop_drop]
  change s.pending.drop 1 = rs
  rw [hr]
  rfl

lemma Core.executed_snoc (h : Core d (.due t) s) : s.executed = (s.finished ++ [r]).length := by
  rw [h.executed, length_append]
  rfl

lemma Core.results_snoc (h : Core d (.due t) s) (hr : s.pending = r :: rs) :
    s.results ++ [(serve s.drive r.given).2] = (serveAll d (s.finished ++ [r])).2 := by
  have hdrive := h.drive
  rw [h.executed_snoc (r := r), ← h.finished_snoc hr, serveAll_snoc] at hdrive
  rw [serveAll_snoc, h.results, hdrive, serve_serve]

lemma Core.returned_results (h : Core d st s) (v : Buf) : ∀ x ∈ s.returned,
    s.queued[x.1]? = some x.2.1 ∧ (s.results ++ [v])[x.1]? = some x.2.2 := by
  intro x hx
  obtain ⟨hq, hres⟩ := h.returned x hx
  rw [getElem?_append_left (List.getElem?_eq_some_iff.mp hres).1]
  exact ⟨hq, hres⟩

/-- The first request is finished and there is no other one. -/
lemma Core.finish_last (h : Core d (.due t) s) (hr : s.pending = [r]) :
    Core d .rest { s with
      idequeue := s.qnext r.num, ctl := .ready, asleep := asleep
      buf := upd s.buf r.num (serve s.drive r.given).2
      finished := s.finished ++ [r], results := s.results ++ [(serve s.drive r.given).2] } where
  started := by
    change s.started = s.queued.take ((s.finished ++ [r]).length + 0)
    rw [h.started, length_append]
    rfl
  finished := h.finished_snoc hr
  executed := h.executed_snoc
  drive := h.drive
  results := h.results_snoc hr
  rest := fun _ => ⟨pending_snoc hr, rfl⟩
  current := by simp
  irq := h.irq
  reg := by simp
  chain := by
    unfold State.pending
    simp only [pending_snoc hr]
    have := h.chain
    rw [hr] at this
    exact this.2
  sound := h.sound
  returned := h.returned_results _

/-- The first request is finished and the next one is started. -/
lemma Core.finish_next (h : Core d (.due t) s) (hr : s.pending = r :: r' :: rs)
    (hreg : reg 0x3f6 = 0) :
    Core d .active { s with
      idequeue := s.qnext r.num, asleep := asleep
      buf := upd s.buf r.num (serve s.drive r.given).2
      finished := s.finished ++ [r], results := s.results ++ [(serve s.drive r.given).2]
      started := s.started ++ [r'], reg := reg, ctl := commandOf r'.given } where
  started := by
    change s.started ++ [r'] = s.queued.take ((s.finished ++ [r]).length + 1)
    have hnext : s.queued[(s.finished ++ [r]).length]? = some r' := by
      rw [← head?_drop, pending_snoc hr]
      rfl
    rw [take_add_one, hnext, h.started, length_append]
    rfl
  finished := h.finished_snoc hr
  executed := h.executed_snoc
  drive := h.drive
  results := h.results_snoc hr
  rest := by simp
  current := by
    intro _
    refine ⟨r', ?_, rfl⟩
    unfold State.pending
    simp only [pending_snoc hr]
    rfl
  irq := h.irq
  reg := fun _ => hreg
  chain := by
    unfold State.pending
    simp only [pending_snoc hr]
    have := h.chain
    rw [hr] at this
    exact this.2
  sound := h.sound
  returned := h.returned_results _

/-- The request of a process is finished. -/
lemma Places.finish {st' : Stage} {v : Buf} (h : Places (.due t) s spot) (hr : s.pending = r :: rs)
    (hlen : s.results.length = s.finished.length) (hst : ∀ t, st' ≠ .due t)
    (hqueued : s'.queued = s.queued) (hticket : s'.ticket = s.ticket)
    (howner : s'.owner = s.owner) (hfinished : s'.finished = s.finished ++ [r])
    (hresults : s'.results = s.results ++ [v]) (hbuf : s'.buf = upd s.buf r.num v) :
    Places st' s' (update spot t .idle) := by
  have hfirst : s.queued[s.finished.length]? = some r := by
    have := getElem?_pending (s := s) (i := 0)
    rw [hr] at this
    exact this.symm
  obtain ⟨-, p0, ho0, hp0⟩ := h.pending _ r (Nat.le_refl _) hfirst
  -- the buffer that changes belongs to the process whose request is finished
  have hother : ∀ {q b : Nat}, s.owner b = some q → spot (.proc q) ≠ .queued s.finished.length r →
      s'.buf b = s.buf b := by
    intro q b ho hq
    rw [hbuf]
    apply upd_ne
    rintro rfl
    rw [ho0] at ho
    obtain rfl := Option.some.inj ho
    exact hq hp0
  constructor
  · intro t'
    by_cases ht : t' = t
    · rw [ht, update_self]
      trivial
    rw [update_of_ne ht]
    have hat := h.at_ t'
    by_cases hs : spot t' = .queued s.finished.length r
    · -- the process whose request is finished finds the result in its buffer
      rw [hs] at hat ⊢
      obtain ⟨q, rfl, ho, hi, hq, -⟩ := hat
      refine ⟨q, rfl, by rw [howner, ho], by rw [hticket, hi], by rw [hqueued, hq], fun _ => ?_⟩
      rw [hresults, ← hlen, getElem?_concat_length, hbuf, upd_same]
    · refine hat.keep (fun b q hq ho => ⟨by rw [howner, ho], hother ho (hq ▸ hs)⟩)
        (fun q _ => by rw [hticket]) (hqueued ▸ prefix_rfl) (hresults ▸ prefix_append _ _)
        fun i r1 he hi => ?_
      rw [hfinished, length_append, length_singleton] at hi
      refine lt_of_le_of_ne (Nat.le_of_lt_succ hi) fun hin => hs ?_
      rw [he] at hat
      obtain ⟨-, -, -, -, hr1, -⟩ := hat
      rw [hin, hfirst] at hr1
      rw [he, hin, Option.some.inj hr1]
  · intro t'
    by_cases ht : t' = t
    · rw [ht, update_self]
      simp [hst]
    · rw [update_of_ne ht, h.due]
      simp [hst, Ne.symm ht]
  · intro i r1 hi hr1
    rw [hfinished, length_append, length_singleton] at hi
    rw [hqueued] at hr1
    obtain ⟨hb, q, ho, hq⟩ := h.pending i r1 (by omega) hr1
    refine ⟨?_, q, by rw [howner, ho], ?_⟩
    · rw [hother ho, hb]
      rw [hq]
      intro e
      have := (Spot.queued.inj e).1
      omega
    · rw [update_of_ne ?_]
      · exact hq
      · intro e
        have := (h.due t).mpr rfl
        rw [← e, hq] at this
        cases this

/-- `ideintr` keeps it as it takes the head off the queue. -/
lemma Core.service (h : Core d (.due t) s) (hspot : Places (.due t) s spot) :
    ∃ st, Core d st s.service ∧ Places st s.service (update spot t .idle) := by
  obtain ⟨r, hhead, hctl⟩ := h.current (by simp)
  obtain ⟨rs, hr⟩ := head?_eq_some_iff.mp hhead
  have hchain := h.chain
  rw [hr] at hchain
  obtain ⟨hfirst, hnext⟩ := hchain
  have hgiven : s.buf r.num = r.given := by
    rw [head?_eq_getElem?, getElem?_pending] at hhead
    exact (hspot.pending _ r (by omega) hhead).1
  have hfinish := State.finish_eq (s := { s with idequeue := s.qnext r.num }) (b := r.num)
    (by rw [hgiven]; exact hctl)
  simp only [hgiven] at hfinish
  have hqueue := congrArg State.idequeue hfinish
  cases rs with
  | nil =>
    rw [State.service_last hfirst (hqueue.trans hnext), hfinish]
    exact ⟨.rest, h.finish_last hr,
      hspot.finish hr h.results_length (by simp) rfl rfl rfl rfl rfl rfl⟩
  | cons r' rs =>
    have hnum : r'.num ≠ r.num := by
      have := hspot.nodup
      rw [hr] at this
      intro e
      simp [e] at this
    have hgiven' : s.buf r'.num = r'.given := by
      have hat : s.pending[1]? = some r' := by rw [hr]; rfl
      rw [getElem?_pending] at hat
      exact (hspot.pending _ r' (by omega) hat).1
    obtain ⟨reg, hreg, hstart⟩ := State.idestart_eq
      ({ s with idequeue := s.qnext r.num }.finish r.num) r'.num
    rw [State.service_next hfirst (hqueue.trans hnext.1), hstart, hfinish]
    simp only [upd_ne hnum, hgiven']
    exact ⟨.active, h.finish_next hr hreg,
      hspot.finish hr h.results_length (by simp) rfl rfl rfl rfl rfl rfl⟩

end

end

end Xv6.Ide
