import Xv6.Kernel.Pipe

/-!
# Readers and writers of a pipe

Bytes come out of a pipe in the order in which they were put in, and, under a condition on writers
that are killed, no reader or writer sleeps while it could go on.
-/

namespace Xv6.Kernel

open Lib Prog Monitor List Function

/-! ### The queue -/

/-- The bytes in the pipe. -/
structure Queue (c : PipeCore) (l : List UInt8) : Prop where
  sent : c.sent = c.taken.map Prod.snd ++ l
  length : l.length ≤ PIPESIZE
  nread : c.pipe.nread < 2 ^ 32
  nwrite : c.pipe.nwrite = (c.pipe.nread + l.length) % 2 ^ 32
  data : ∀ i (h : i < l.length), c.pipe.data ((c.pipe.nread + i) % PIPESIZE) = l[i]

section Queue

variable {c : PipeCore} {l : List UInt8} {b : UInt8}

lemma Queue.full_iff (h : Queue c l) : c.pipe.full = true ↔ l.length = PIPESIZE := by
  have h1 := h.length
  have h2 := h.nread
  unfold Pipe.full
  rw [beq_iff_eq, h.nwrite]
  simp only [PIPESIZE] at h1 ⊢
  omega

lemma Queue.empty_iff (h : Queue c l) : c.pipe.empty = true ↔ l = [] := by
  have h1 := h.length
  have h2 := h.nread
  unfold Pipe.empty
  rw [beq_iff_eq, h.nwrite, ← length_eq_zero_iff]
  simp only [PIPESIZE] at h1
  omega

/-- A byte is put at the end, where no byte of the queue is. -/
lemma Queue.put (h : Queue c l) (hf : c.pipe.full = false) (owed : Bool) :
    Queue { c with pipe := c.pipe.put b, sent := c.sent ++ [b], owed := owed } (l ++ [b]) := by
  have h1 := h.length
  have h2 := h.nread
  have h3 := h.nwrite
  have hlt : l.length < PIPESIZE := by
    have : ¬l.length = PIPESIZE := fun e => by
      rw [h.full_iff.mpr e] at hf
      cases hf
    omega
  simp only [PIPESIZE] at hlt
  refine ⟨?_, ?_, h2, ?_, fun i hi => ?_⟩
  · rw [h.sent, append_assoc]
  · rw [length_append, length_singleton]
    exact hlt
  · change (c.pipe.nwrite + 1) % 2 ^ 32 = (c.pipe.nread + (l ++ [b]).length) % 2 ^ 32
    rw [h3, length_append, length_singleton]
    omega
  · change upd c.pipe.data (c.pipe.nwrite % PIPESIZE) b ((c.pipe.nread + i) % PIPESIZE) = _
    rw [length_append, length_singleton] at hi
    by_cases hil : i = l.length
    · subst hil
      have he : c.pipe.nwrite % PIPESIZE = (c.pipe.nread + l.length) % PIPESIZE := by
        simp only [PIPESIZE]
        omega
      rw [he, upd_same]
      simp
    · have hi' : i < l.length := by omega
      have hne : (c.pipe.nread + i) % PIPESIZE ≠ c.pipe.nwrite % PIPESIZE := by
        simp only [PIPESIZE]
        omega
      rw [upd_ne hne, h.data i hi', getElem_append_left hi']

/-- A byte is taken from the front. -/
lemma Queue.take (h : Queue c (b :: l)) (p : Nat) : c.pipe.next = b ∧
    Queue { c with pipe := c.pipe.advance, taken := c.taken ++ [(p, c.pipe.next)] } l := by
  have h1 := h.length
  have h2 := h.nread
  have h3 := h.nwrite
  rw [length_cons] at h1 h3
  simp only [PIPESIZE] at h1
  have hb : c.pipe.next = b := h.data 0 (by simp)
  refine ⟨hb, ⟨?_, by simp only [PIPESIZE]; omega, Nat.mod_lt _ (by decide), ?_, fun i hi => ?_⟩⟩
  · rw [hb, map_append, append_assoc]
    exact h.sent
  · change c.pipe.nwrite = ((c.pipe.nread + 1) % 2 ^ 32 + l.length) % 2 ^ 32
    omega
  · change c.pipe.data (((c.pipe.nread + 1) % 2 ^ 32 + i) % PIPESIZE) = _
    have he : ((c.pipe.nread + 1) % 2 ^ 32 + i) % PIPESIZE =
        (c.pipe.nread + (i + 1)) % PIPESIZE := by
      simp only [PIPESIZE]
      omega
    rw [he, h.data (i + 1) (by simpa using hi), getElem_cons_succ]

end Queue

/-! ### The monitor -/

/-- What holds of a pipe and of what is told of it. -/
structure PipeOk (n : Nat) (d : PipeData) : Prop where
  queue : ∃ l, Queue d.core l
  opened : ∀ w q, d.holds w q = true → d.core.pipe.isOpen w = true
  bound : ∀ w q, d.holds w q = true → q < n
  returned : ∀ r ∈ d.returned, r.result = r.n → r.stored = r.given

/-- What a thread knows of a pipe. -/
inductive PipeKnow
  | idle
  /-- It is in `piperead`, with the read end open, and has taken these bytes. -/
  | reader (l : List UInt8)
  /-- It is in `pipewrite`, with the write end open, and has stored these bytes. -/
  | writer (l : List UInt8)
  /-- It has no write end open and has stored nothing. -/
  | refused
  /-- It has closed the last descriptor of an end. -/
  | closing (w : Bool)

/-- The bytes that have been taken and not handed over. -/
def PipeKnow.took : PipeKnow → List UInt8
  | reader l => l
  | _ => []

/-- What process `p` knows. -/
def PipeKnow.of (p : Nat) (d : PipeData) : PipeKnow → Prop
  | idle => True
  | reader _ => d.holds false p = true
  | writer l => d.holds true p = true ∧ d.wrote p = l
  | refused => d.wrote p = []
  | closing w => ∀ q, d.holds w q = false

/-- The meaning of this knowledge. -/
def PipeKnow.holds : Tid → PipeKnow → PipeData → Prop
  | .proc p, κ, d => d.takenBy p = d.handed p ++ κ.took ∧ κ.of p d
  | .cpu _, _, _ => True

/-- Sleepers on a channel of the pipe could go on. -/
def Pipe.due (q : Pipe) (chan : Chan) : Bool :=
  (decide (chan = nreadChan) && q.readopen && (!q.empty || !q.writeopen)) ||
    (decide (chan = nwriteChan) && q.writeopen && (!q.full || !q.readopen))

/-- The monitor of a pipe in a table of `n` processes. If it is not strict then nothing is said of
sleepers. -/
def pipeMonitor (n : Nat) (strict : Bool) : Monitor PipeData PipeCore PipeKnow where
  lk := pipeLock
  val := PipeData.core
  ok := PipeOk n
  due d chan := strict && d.core.pipe.due chan
  own := NotPipe
  due_own d chan h := by simp [Pipe.due, h.1, h.2]
  own_null := ⟨by simp [nreadChan], by simp [nwriteChan]⟩
  knows t sp κ d := (∀ chan, sp ≠ .owing chan) ∧ κ.holds t d
  knows_spot _ _ _ _ _ h hk := ⟨fun chan e => h chan (.inr e), hk.2⟩
  may κ chan := (∃ l, κ = .reader l) ∧ chan = nreadChan ∨ (∃ l, κ = .writer l) ∧ chan = nwriteChan

/-- A writer that is killed gives up only if it has stored nothing since readers were woken up. -/
def GivesUpPaid (t : Tid) (l : Label) (s : Machine PipeData) : Prop :=
  ∀ p, t = .proc p → l = .giveUp → s.data.core.pipe.readopen = true →
    (s.proc p).killed = true → s.data.core.owed = false

/-- The condition on runs, if anything is said of sleepers. -/
def pipeCond (strict : Bool) (t : Tid) (l : Label) (s : Machine PipeData) : Prop :=
  strict = true → GivesUpPaid t l s

/-! ### What the actions do to the data -/

section Data

variable {n p : Nat} {strict : Bool} {t : Tid} {sp : Spot PipeCore} {κ : PipeKnow}
  {d d' : PipeData}

lemma PipeOk.noteWrite {k result : Int} {given : List UInt8} (h : PipeOk n d)
    (hr : result = k → d.wrote p = given) : PipeOk n (d.noteWrite p k result given) := by
  refine ⟨h.queue, h.opened, h.bound, fun r hmem => ?_⟩
  rcases mem_cons.mp hmem with rfl | hmem
  · exact hr
  · exact h.returned r hmem

lemma PipeOk.paid (h : PipeOk n d) : PipeOk n d.paid := by
  obtain ⟨l, hl⟩ := h.queue
  exact ⟨⟨l, hl.sent, hl.length, hl.nread, hl.nwrite, hl.data⟩, h.opened, h.bound, h.returned⟩

lemma PipeOk.put (h : PipeOk n d) (hf : d.core.pipe.full = false) (b : UInt8) :
    PipeOk n (d.put p b) := by
  obtain ⟨l, hl⟩ := h.queue
  exact ⟨⟨_, hl.put hf true⟩, fun w q hq => by
    have := h.opened w q hq
    cases w <;> exact this, h.bound, h.returned⟩

lemma PipeOk.take (h : PipeOk n d) (he : d.core.pipe.empty = false) : PipeOk n (d.take p) := by
  obtain ⟨l, hl⟩ := h.queue
  cases l with
  | nil =>
    rw [hl.empty_iff.mpr rfl] at he
    cases he
  | cons b l =>
    exact ⟨⟨l, (hl.take p).2⟩, fun w q hq => by
      have := h.opened w q hq
      cases w <;> exact this, h.bound, h.returned⟩

/-- The end that nobody has open is closed. -/
lemma PipeOk.close (h : PipeOk n d) {w : Bool} (hw : ∀ q, d.holds w q = false) :
    PipeOk n { d with core := { d.core with pipe := d.core.pipe.close w } } := by
  obtain ⟨l, hl⟩ := h.queue
  refine ⟨⟨l, ?_⟩, fun w' q hq => ?_, h.bound, h.returned⟩
  · cases w <;> exact ⟨hl.sent, hl.length, hl.nread, hl.nwrite, hl.data⟩
  · have hne : w' ≠ w := by
      rintro rfl
      have hq : d.holds w' q = true := hq
      rw [hw q] at hq
      cases hq
    have := h.opened w' q hq
    cases w <;> cases w' <;> first | exact absurd rfl hne | exact this

/-- What a thread knows stays true if nobody takes or stores bytes in its name, or closes its end,
and no end is opened that nobody has open. -/
lemma PipeKnow.holds_mono (h : κ.holds t d) (hself : ∀ q, t = .proc q → d'.wrote q = d.wrote q ∧
      d'.handed q = d.handed q ∧ d'.takenBy q = d.takenBy q ∧
      ∀ w, d.holds w q = true → d'.holds w q = true)
    (hclosing : ∀ w, (∀ q, d.holds w q = false) → ∀ q, d'.holds w q = false) : κ.holds t d' := by
  cases t with
  | cpu c => trivial
  | proc q =>
    obtain ⟨h1, h2, h3, h4⟩ := hself q rfl
    refine ⟨by rw [h2, h3]; exact h.1, ?_⟩
    cases κ with
    | idle => trivial
    | reader l => exact h4 _ h.2
    | writer l => exact ⟨h4 _ h.2.1, h1.trans h.2.2⟩
    | refused => exact h1.trans h.2
    | closing w => exact hclosing w h.2

lemma pipe_knows_congr (h : (pipeMonitor n strict).knows t sp κ d) (hh : d'.holds = d.holds)
    (hself : ∀ q, t = .proc q →
      d'.wrote q = d.wrote q ∧ d'.handed q = d.handed q ∧ d'.takenBy q = d.takenBy q) :
    (pipeMonitor n strict).knows t sp κ d' :=
  ⟨h.1, PipeKnow.holds_mono h.2 (fun q hq => ⟨(hself q hq).1, (hself q hq).2.1, (hself q hq).2.2,
    fun _ hw => hh ▸ hw⟩) fun _ hw => hh ▸ hw⟩

lemma takenBy_take (p q : Nat) : (d.take p).takenBy q =
    d.takenBy q ++ if q = p then [d.core.pipe.next] else [] := by
  unfold PipeData.takenBy PipeData.take
  rw [filter_append, map_append]
  by_cases h : q = p
  · simp [h]
  · simp [h, Ne.symm h]

lemma pipe_due {chan : Chan} : (pipeMonitor n strict).due d chan = true ↔ strict = true ∧
    ((chan = nreadChan ∧ d.core.pipe.readopen = true ∧
      (d.core.pipe.empty = false ∨ d.core.pipe.writeopen = false)) ∨
    (chan = nwriteChan ∧ d.core.pipe.writeopen = true ∧
      (d.core.pipe.full = false ∨ d.core.pipe.readopen = false))) := by
  simp [pipeMonitor, Pipe.due, and_assoc]

end Data

/-! ### Writers -/

section Writers

variable {n p : Nat} {strict : Bool} {x : PipeCore} {o : Option Chan} {κ : PipeKnow}
  {l : List UInt8}

/-- The outline of a pipe. -/
abbrev pipeOutline (n : Nat) (strict : Bool) :
    Outline Tid Label (Machine PipeData) (MonMode PipeCore PipeKnow) :=
  (pipeMonitor n strict).outline n (pipeCond strict)

/-- The mode of a thread that holds the lock of the pipe. -/
abbrev inPipe (n : Nat) (strict : Bool) (x : PipeCore) (o : Option Chan) (κ : PipeKnow) :
    MonMode PipeCore PipeKnow :=
  (pipeMonitor n strict).within x o κ

/-- A thread reads the pipe. -/
lemma safe_lookPipe {α : Type} (f : PipeCore → α) :
    (look (.proc p) fun s => f s.data.core).safe (pipeOutline n strict) (.proc p)
      (inPipe n strict x o κ) fun a m => a = f x ∧ m = inPipe n strict x o κ := by
  refine Monitor.safe_look fun s mode hJ hm => ?_
  have hx : (mode (.proc p)).spot = .inside x o := by rw [hm]; rfl
  exact ⟨by rw [show s.data.core = x from (hJ.2.inside _ _ _ hx).2], rfl⟩

/-- A thread leaves the pipe. If the read end is open it does so without a debt. -/
lemma safe_leavePipe {κ' : PipeKnow} (ho : strict = true → x.pipe.readopen = true → o = none)
    (ho' : o = none ∨ o = some nreadChan)
    (hκ : ∀ d, κ.holds (.proc p) d → κ'.holds (.proc p) d) :
    (release (.proc p) pipeLock).safe (pipeOutline n strict) (.proc p) (inPipe n strict x o κ)
      fun _ m => m = off κ' := by
  refine Monitor.safe_release (P := pipeMonitor n strict) (.inl rfl) ?_ fun dd hk =>
    ⟨fun _ => nofun, hκ dd hk.2⟩
  rintro dd - hval chan rfl hdue
  have hval : dd.core = x := hval
  obtain ⟨hs, hdue⟩ := pipe_due.mp hdue
  rw [hval] at hdue
  rcases ho' with ho' | ho'
  · cases ho'
  · rw [Option.some.inj ho'] at hdue ho
    rcases hdue with ⟨-, hro, -⟩ | ⟨h, -⟩
    · cases ho hs hro
    · cases h

/-- A writer wakes readers up. -/
lemma safe_wakeReaders (ho : o = none ∨ o = some nreadChan) :
    (wakeupNote (.proc p) nreadChan PipeData.paid).safe (pipeOutline n strict) (.proc p)
      (inPipe n strict x o κ) fun _ m => m = inPipe n strict { x with owed := false } none κ := by
  refine safe_wakeupNote (P := pipeMonitor n strict) (by simp [pipeMonitor, pipeLock]) ho ?_
  intro d hd hval hk
  have hval : d.core = x := hval
  refine ⟨hd.paid, ?_, fun chan h => h, ⟨by simp, ?_⟩,
    fun t' sp κ' _ _ hk' => pipe_knows_congr hk' rfl fun _ _ => ⟨rfl, rfl, rfl⟩⟩
  · change d.paid.core = _
    rw [← hval]
    rfl
  · exact (pipe_knows_congr hk rfl fun _ _ => ⟨rfl, rfl, rfl⟩).2

/-- The test of a writer that finds the pipe full. -/
lemma safe_giveUp (ho : o = none ∨ o = some nreadChan ∧ x.owed = true) :
    (access (.proc p) .giveUp (fun s => s.data)
      fun s => !s.data.core.pipe.readopen || (s.proc p).killed).safe (pipeOutline n strict)
      (.proc p) (inPipe n strict x o κ) fun stop m => m = inPipe n strict x o κ ∧
        (stop = true → strict = true → x.pipe.readopen = true → o = none) ∧
        (stop = false → x.pipe.readopen = true) := by
  refine safe_access fun s hok hval hkn hc => ?_
  have hval : s.data.core = x := hval
  refine ⟨x, o, κ, ⟨hok, hval, fun chan h => .inl h, fun _ h => h, hkn,
    fun t' sp κ' _ _ hk' => hk'⟩, rfl, ?_, ?_⟩
  · intro hstop hs hro
    rw [hval, hro] at hstop
    have hpaid := hc hs p rfl rfl (by rw [hval, hro]) (by simpa using hstop)
    rcases ho with ho | ⟨-, hx⟩
    · exact ho
    · rw [hval, hx] at hpaid
      cases hpaid
  · intro hstop
    rw [hval, Bool.or_eq_false_iff] at hstop
    simpa using hstop.1

/-- A writer stores a byte. -/
lemma safe_put (b : UInt8) (hf : x.pipe.full = false) (ho : o = none ∨ o = some nreadChan) :
    (access (.proc p) .tau (fun s => s.data.put p b) fun _ => ()).safe (pipeOutline n strict)
      (.proc p) (inPipe n strict x o (.writer l)) fun _ m => ∃ x', x'.owed = true ∧
        m = inPipe n strict x' (some nreadChan) (.writer (l ++ [b])) := by
  refine safe_access fun s hok hval hkn _ => ?_
  have hval : s.data.core = x := hval
  have hf' : s.data.core.pipe.full = false := by rw [hval]; exact hf
  obtain ⟨htook, hh, hw⟩ := hkn.2
  refine ⟨(s.data.put p b).core, some nreadChan, .writer (l ++ [b]), ⟨hok.put hf' b, rfl,
    fun chan h => ?_, fun chan h => ?_, ⟨fun _ => nofun, htook, hh, ?_⟩,
      fun t' sp κ' ht _ hk' => ?_⟩,
    _, rfl, rfl⟩
  · obtain ⟨hs, h⟩ := pipe_due.mp h
    rcases h with ⟨rfl, -⟩ | ⟨rfl, hwo, -⟩
    · exact .inr rfl
    · exact .inl (pipe_due.mpr ⟨hs, .inr ⟨rfl, hwo, .inl hf'⟩⟩)
  · rcases ho with rfl | rfl
    · cases h
    · exact h
  · change upd s.data.wrote p (s.data.wrote p ++ [b]) p = _
    rw [upd_same, hw]
  · exact pipe_knows_congr hk' rfl fun q hq => ⟨upd_ne fun e => ht (by rw [hq, e]), rfl, rfl⟩

/-- The loops of `pipewrite`, from byte `i` on. -/
lemma safe_pipewriteLoop (addr : Nat → UInt8) (k : Int) (delay : Nat → Nat) (turns : Nat) :
    ∀ (i : Nat) x o, (o = none ∨ o = some nreadChan ∧ x.owed = true) → (i : Int) ≤ max k 0 →
      (pipewriteLoop p addr k delay i turns).safe (pipeOutline n strict) (.proc p)
        (inPipe n strict x o (.writer ((List.range i).map addr))) fun r m =>
          ∃ l, m = off (.writer l) ∧ (r = k → l = (List.range k.toNat).map addr) := by
  induction turns with
  | zero =>
    intro i x o _ _ s mode _ _ hg _
    cases hg
  | succ turns ih =>
    intro i x o ho hi
    have hor : o = none ∨ o = some nreadChan := ho.imp_right And.left
    unfold pipewriteLoop
    split
    next hki =>
      -- all bytes are stored
      have hik : k.toNat = i := by omega
      refine safe_then (safe_wakeReaders hor) fun _ =>
        safe_then (safe_leavePipe (fun _ _ => rfl) (.inl rfl) fun _ h => h) fun _ => ?_
      exact ⟨_, rfl, fun _ => by rw [hik]⟩
    next hki =>
      refine safe_bind (safe_lookPipe fun c => c.pipe.full) ?_
      rintro full m ⟨hfull, rfl⟩
      cases full with
      | true =>
        refine safe_bind (safe_giveUp ho) ?_
        rintro stop m ⟨rfl, hstop, hgo⟩
        cases stop with
        | true =>
          refine safe_then (safe_leavePipe (hstop rfl) hor fun _ h => h) fun _ => ?_
          exact ⟨_, rfl, fun hk => by omega⟩
        | false =>
          refine safe_then (safe_wakeReaders hor) fun _ => ?_
          refine safe_bind (safe_sleep (P := pipeMonitor n strict) (fun dd _ hval => ?_)
            (.inr ⟨⟨_, rfl⟩, rfl⟩) _) ?_
          · -- the pipe is full and its read end open
            have hval : dd.core = { x with owed := false } := hval
            by_contra hdue
            obtain ⟨-, hdue⟩ := pipe_due.mp (by simpa using hdue)
            rw [hval] at hdue
            rcases hdue with ⟨h, -⟩ | ⟨-, -, h | h⟩
            · cases h
            · rw [show x.pipe.full = false from h] at hfull
              cases hfull
            · rw [show x.pipe.readopen = false from h] at hgo
              cases hgo rfl
          · rintro - m ⟨dd, rfl, -⟩
            exact ih i _ none (.inl rfl) hi
      | false =>
        refine safe_bind (safe_put (addr i) hfull.symm hor) ?_
        rintro - m ⟨x', hx', rfl⟩
        have := ih (i + 1) x' (some nreadChan) (.inr ⟨rfl, hx'⟩) (by omega)
        rwa [range_succ, map_append] at this

/-- The start of a call. -/
lemma safe_beginCall (w : Bool) :
    (beginCall p w).safe (pipeOutline n strict) (.proc p) (off .idle) fun found m =>
      m = off (if found then (if w then .writer [] else .reader []) else .refused) := by
  refine safe_outside fun s _ hok hkn _ => ⟨⟨hok.queue, hok.opened, hok.bound, hok.returned⟩, rfl,
    fun _ h => h, fun t' sp κ ht hk => ?_, _, ?_, rfl⟩
  · exact pipe_knows_congr hk rfl fun q hq => ⟨upd_ne fun e => ht (by rw [hq, e]), rfl, rfl⟩
  · refine ⟨fun _ => nofun, ?_⟩
    have htook := hkn.2.1
    cases hh : s.data.holds w p with
    | false => exact ⟨htook, upd_same ..⟩
    | true =>
      cases w with
      | false => exact ⟨htook, hh⟩
      | true => exact ⟨htook, hh, upd_same ..⟩

/-- `pipewrite` returns, and its process tells the result. -/
lemma safe_noteWrite {κ : PipeKnow} {k r : Int} {given : List UInt8} (hκ : κ.took = [])
    (hr : ∀ d, κ.of p d → r = k → d.wrote p = given) :
    (access (.proc p) .tau (fun s => s.data.noteWrite p k r given) fun _ => ()).safe
      (pipeOutline n strict) (.proc p) (off κ) fun _ m => m = off .idle := by
  refine safe_outside fun s _ hok hkn _ => ⟨hok.noteWrite (hr _ hkn.2.2), rfl, fun _ h => h,
    fun t' sp κ _ hk => pipe_knows_congr hk rfl fun _ _ => ⟨rfl, rfl, rfl⟩, .idle,
    ⟨fun _ => nofun, ?_, trivial⟩, rfl⟩
  have htook := hkn.2.1
  rw [hκ] at htook
  exact htook

lemma safe_callWrite (addr : Nat → UInt8) (k : Int) (delay : Nat → Nat) (turns : Nat) :
    (callWrite p addr k delay turns).safe (pipeOutline n strict) (.proc p) (off .idle)
      fun _ m => m = off .idle := by
  refine safe_bind (Q := fun r m => (m = off .refused ∧ r = -1) ∨ ∃ l, m = off (.writer l) ∧
    (r = k → l = (List.range k.toNat).map addr))
    (safe_then (safe_beginCall true) fun found => ?_) ?_
  · cases found with
    | false => exact .inl ⟨rfl, rfl⟩
    | true =>
      refine safe_bind (Monitor.safe_acquire (P := pipeMonitor n strict)) ?_
      rintro - m ⟨dd, rfl, -⟩
      exact safe_mono (safe_pipewriteLoop addr k delay turns 0 _ none (.inl rfl) (by omega))
        fun _ _ h => .inr h
  · rintro r m (⟨rfl, rfl⟩ | ⟨l, rfl, hl⟩)
    · refine safe_noteWrite rfl fun d hd hk => ?_
      obtain rfl : k = -1 := hk.symm
      exact hd
    · exact safe_noteWrite rfl fun d hd hk => hd.2.trans (hl hk)

end Writers

/-! ### Readers -/

section Readers

variable {n p : Nat} {strict : Bool} {x : PipeCore} {o : Option Chan} {κ : PipeKnow}
  {l : List UInt8}

lemma safe_pipereadAwait (delay : Nat → Nat) (turns : Nat) : ∀ x,
    (pipereadAwait p delay turns).safe (pipeOutline n strict) (.proc p)
      (inPipe n strict x none (.reader [])) fun go m =>
        if go then ∃ x, m = inPipe n strict x none (.reader []) else m = off (.reader []) := by
  induction turns with
  | zero =>
    intro x s mode _ _ hg _
    cases hg
  | succ turns ih =>
    intro x
    refine safe_bind (safe_lookPipe fun c => c.pipe.empty && c.pipe.writeopen) ?_
    rintro wait m ⟨hwait, rfl⟩
    cases wait with
    | false => exact ⟨x, rfl⟩
    | true =>
      obtain ⟨he, hw⟩ := Bool.and_eq_true_iff.mp hwait.symm
      refine safe_bind (Q := fun _ m => m = inPipe n strict x none (.reader []))
        (Monitor.safe_look fun _ _ _ _ => rfl) ?_
      rintro killed m rfl
      cases killed with
      | true =>
        refine safe_then (safe_leavePipe (fun _ _ => rfl) (.inl rfl) fun _ h => h) fun _ => ?_
        rfl
      | false =>
        refine safe_bind (safe_sleep (P := pipeMonitor n strict) (fun dd _ hval => ?_)
          (.inl ⟨⟨_, rfl⟩, rfl⟩) _) ?_
        · -- the pipe is empty and its write end open
          have hval : dd.core = x := hval
          by_contra hdue
          obtain ⟨-, hdue⟩ := pipe_due.mp (by simpa using hdue)
          rw [hval] at hdue
          rcases hdue with ⟨-, -, h | h⟩ | ⟨h, -⟩
          · rw [h] at he
            cases he
          · rw [h] at hw
            cases hw
          · cases h
        · rintro - m ⟨dd, rfl, -⟩
          exact ih _

/-- A reader takes a byte. -/
lemma safe_take (he : x.pipe.empty = false) (ho : o = none ∨ o = some nwriteChan) :
    (access (.proc p) .tau (fun s => s.data.take p) fun s => s.data.core.pipe.next).safe
      (pipeOutline n strict) (.proc p) (inPipe n strict x o (.reader l)) fun b m =>
        ∃ x', m = inPipe n strict x' (some nwriteChan) (.reader (l ++ [b])) := by
  refine safe_access fun s hok hval hkn _ => ?_
  have hval : s.data.core = x := hval
  have he' : s.data.core.pipe.empty = false := by rw [hval]; exact he
  refine ⟨(s.data.take p).core, some nwriteChan, .reader (l ++ [_]), ⟨hok.take he', rfl,
    fun chan h => ?_, fun chan h => ?_, ⟨fun _ => nofun, ?_, hkn.2.2⟩,
    fun t' sp κ' ht _ hk' => pipe_knows_congr hk' rfl fun q hq => ⟨rfl, rfl, ?_⟩⟩, _, rfl⟩
  · obtain ⟨hs, h⟩ := pipe_due.mp h
    rcases h with ⟨rfl, hro, -⟩ | ⟨rfl, -⟩
    · exact .inl (pipe_due.mpr ⟨hs, .inl ⟨rfl, hro, .inl he'⟩⟩)
    · exact .inr rfl
  · rcases ho with rfl | rfl
    · cases h
    · exact h
  · rw [takenBy_take, if_pos rfl, hkn.2.1, append_assoc]
    rfl
  · rw [takenBy_take, if_neg fun e => ht (by rw [hq, e]), append_nil]

lemma safe_pipereadCopy (k : Nat) : ∀ x o l, (o = none ∨ o = some nwriteChan) →
    (pipereadCopy p k).safe (pipeOutline n strict) (.proc p) (inPipe n strict x o (.reader l))
      fun bs m => ∃ x o, (o = none ∨ o = some nwriteChan) ∧
        m = inPipe n strict x o (.reader (l ++ bs)) := by
  induction k with
  | zero => exact fun x o l ho => ⟨x, o, ho, by rw [append_nil]⟩
  | succ k ih =>
    intro x o l ho
    refine safe_bind (safe_lookPipe fun c => c.pipe.empty) ?_
    rintro empty m ⟨he, rfl⟩
    cases empty with
    | true => exact ⟨x, o, ho, by rw [append_nil]⟩
    | false =>
      refine safe_bind (safe_take he.symm ho) ?_
      rintro b m ⟨x', rfl⟩
      refine safe_bind (ih x' _ _ (.inr rfl)) ?_
      rintro bs m ⟨x, o, ho, rfl⟩
      exact ⟨x, o, ho, by rw [append_assoc]; rfl⟩

/-- A thread in the pipe pays its debt. -/
lemma safe_wakeupPipe {chan : Chan} (ho : o = none ∨ o = some chan) :
    (wakeup (.proc p) chan).safe (pipeOutline n strict) (.proc p) (inPipe n strict x o κ)
      fun _ m => m = inPipe n strict x none κ := by
  rw [← wakeupNote_id]
  refine safe_wakeupNote (P := pipeMonitor n strict) (by simp [pipeMonitor, pipeLock]) ho ?_
  exact fun d hd hval hk => ⟨hd, hval, fun _ h => h, ⟨by simp, hk.2⟩, fun _ _ _ _ _ h => h⟩

/-- `piperead` returns the bytes that it has taken. -/
lemma safe_piperead (k : Int) (delay : Nat → Nat) (turns : Nat) :
    (piperead p k delay turns).safe (pipeOutline n strict) (.proc p) (off .idle)
      fun r m => ∃ κ, m = off κ ∧ κ.took = r.2.take r.1.toNat := by
  refine safe_then (safe_beginCall false) fun found => ?_
  cases found with
  | false => exact ⟨_, rfl, rfl⟩
  | true =>
    refine safe_bind (Monitor.safe_acquire (P := pipeMonitor n strict)) ?_
    rintro - m ⟨dd, rfl, -⟩
    refine safe_bind (safe_pipereadAwait delay turns _) ?_
    rintro go m hgo
    cases go with
    | false => exact ⟨_, hgo, rfl⟩
    | true =>
      obtain ⟨x, rfl⟩ := hgo
      refine safe_bind (safe_pipereadCopy k.toNat x none [] (.inl rfl)) ?_
      rintro bs m ⟨x', o, ho, rfl⟩
      refine safe_then (safe_wakeupPipe ho) fun _ =>
        safe_then (safe_leavePipe (fun _ _ => rfl) (.inl rfl) fun _ h => h) fun _ => ?_
      exact ⟨_, rfl, by simp [PipeKnow.took]⟩

lemma safe_callRead (k : Int) (delay : Nat → Nat) (turns : Nat) :
    (callRead p k delay turns).safe (pipeOutline n strict) (.proc p) (off .idle)
      fun _ m => m = off .idle := by
  refine safe_bind (safe_piperead k delay turns) ?_
  rintro ⟨r, bytes⟩ m ⟨κ, rfl, hκ⟩
  refine safe_outside fun s _ hok hkn _ => ⟨⟨hok.queue, hok.opened, hok.bound, hok.returned⟩, rfl,
    fun _ h => h, fun t' sp κ ht hk => ?_, .idle, ⟨fun _ => nofun, ?_, trivial⟩, rfl⟩
  · exact pipe_knows_congr hk rfl fun q hq => ⟨rfl, upd_ne fun e => ht (by rw [hq, e]), rfl⟩
  · change s.data.takenBy p = upd s.data.handed p _ p ++ []
    rw [upd_same, append_nil, hkn.2.1, hκ]

end Readers

/-! ### Closing and sharing -/

section Ends

variable {n p : Nat} {strict : Bool}

lemma safe_pipeclose (w : Bool) :
    (pipeclose p w).safe (pipeOutline n strict) (.proc p) (off (.closing w))
      fun _ m => m = off .idle := by
  refine safe_bind (Monitor.safe_acquire (P := pipeMonitor n strict)) ?_
  rintro - m ⟨dd, rfl, -⟩
  refine safe_bind (Q := fun _ m => ∃ x, m = inPipe n strict x
    (some (if w then nreadChan else nwriteChan)) (.closing w)) (safe_access ?_) ?_
  · intro s hok hval hkn _
    obtain ⟨htook, hnone⟩ : _ ∧ ∀ q, s.data.holds w q = false := hkn.2
    refine ⟨_, some (if w then nreadChan else nwriteChan), .closing w, ⟨hok.close hnone, rfl,
      fun chan h => .inr ?_, fun _ h => (nomatch h), ⟨fun _ => nofun, htook, hnone⟩,
      fun t' sp κ' _ _ hk' => pipe_knows_congr hk' rfl fun _ _ => ⟨rfl, rfl, rfl⟩⟩, _, rfl⟩
    obtain ⟨-, h⟩ := pipe_due.mp h
    cases w with
    | true =>
      rcases h with ⟨rfl, -⟩ | ⟨-, h, -⟩
      · rfl
      · cases h
    | false =>
      rcases h with ⟨-, h, -⟩ | ⟨rfl, -⟩
      · cases h
      · rfl
  · rintro - m ⟨x, rfl⟩
    refine safe_then (safe_wakeupPipe (.inr rfl)) fun _ => ?_
    exact safe_leavePipe (fun _ _ => rfl) (.inl rfl) fun _ h => ⟨h.1, trivial⟩

/-- Only the last holder of an end goes on to close the pipe. -/
lemma safe_fileclose (w : Bool) :
    (fileclose p w).safe (pipeOutline n strict) (.proc p) (off .idle)
      fun _ m => m = off .idle := by
  refine safe_bind (Q := fun last m => m = off (if last then .closing w else .idle))
    (safe_outside ?_) ?_
  · intro s hn hok hkn _
    obtain ⟨h', hh'⟩ : ∃ h', h' =
      update s.data.holds w (upd (s.data.holds w) p false) := ⟨_, rfl⟩
    have hle : ∀ w' q, h' w' q = true → s.data.holds w' q = true := fun w' q hq => by
      rw [hh'] at hq
      by_cases hw : w' = w
      · subst hw
        rw [update_self] at hq
        by_cases hqp : q = p
        · rw [hqp, upd_same] at hq
          cases hq
        · rwa [upd_ne hqp] at hq
      · rwa [update_of_ne hw] at hq
    have hother : ∀ w' q, q ≠ p → h' w' q = s.data.holds w' q := fun w' q hq => by
      rw [hh']
      by_cases hw : w' = w
      · subst hw
        rw [update_self, upd_ne hq]
      · rw [update_of_ne hw]
    rw [← hh']
    refine ⟨⟨hok.queue, fun w' q hq => hok.opened w' q (hle w' q hq),
      fun w' q hq => hok.bound w' q (hle w' q hq), hok.returned⟩, rfl, fun _ h => h,
      fun t' sp κ ht hk => ⟨hk.1,
        PipeKnow.holds_mono hk.2 (fun q hq => ⟨rfl, rfl, rfl, fun w' h => ?_⟩)
        fun w' hw' q => ?_⟩, _, ⟨fun _ => nofun, ?_⟩, rfl⟩
    · exact (hother w' q fun e => ht (by rw [hq, e])).trans h
    · by_contra hq
      have := hle w' q (by simpa using hq)
      rw [hw' q] at this
      cases this
    · split
      next hlast =>
        refine ⟨hkn.2.1, fun q => ?_⟩
        change h' w q = false
        by_cases hqp : q = p
        · rw [hh', update_self, hqp, upd_same]
        · rw [hother w q hqp]
          by_contra hq
          have hq : s.data.holds w q = true := by simpa using hq
          have hlt : q < s.nproc := by
            rw [hn]
            exact hok.bound w q hq
          have hall := all_eq_true.mp (Bool.and_eq_true_iff.mp hlast).2 q
            (mem_range.mpr hlt)
          simp [hqp, hq] at hall
      next => exact ⟨hkn.2.1, trivial⟩
  · rintro last m rfl
    cases last with
    | true => exact safe_pipeclose w
    | false => rfl

/-- An end is copied from a holder, so it is still open. -/
lemma safe_filedup (q : Nat) (w : Bool) :
    (filedup p q w).safe (pipeOutline n strict) (.proc p) (off .idle)
      fun _ m => m = off .idle := by
  refine safe_outside fun s hn hok hkn _ => ?_
  split
  next hg =>
    obtain ⟨hp, hq⟩ := Bool.and_eq_true_iff.mp hg
    have hq : q < n := by
      rw [← hn]
      simpa using hq
    obtain ⟨h', hh'⟩ : ∃ h', h' =
      update s.data.holds w (upd (s.data.holds w) q true) := ⟨_, rfl⟩
    have hge : ∀ w' r, s.data.holds w' r = true → h' w' r = true := fun w' r hr => by
      rw [hh']
      by_cases hw : w' = w
      · subst hw
        rw [update_self]
        by_cases hrq : r = q
        · rw [hrq, upd_same]
        · rwa [upd_ne hrq]
      · rwa [update_of_ne hw]
    have hcases : ∀ w' r, h' w' r = true → s.data.holds w' r = true ∨ (w' = w ∧ r = q) :=
      fun w' r hr => by
      rw [hh'] at hr
      by_cases hw : w' = w
      · subst hw
        by_cases hrq : r = q
        · exact .inr ⟨rfl, hrq⟩
        · rw [update_self, upd_ne hrq] at hr
          exact .inl hr
      · rw [update_of_ne hw] at hr
        exact .inl hr
    rw [← hh']
    refine ⟨⟨hok.queue, fun w' r hr => ?_, fun w' r hr => ?_, hok.returned⟩, rfl, fun _ h => h,
      fun t' sp κ _ hk => ⟨hk.1,
        PipeKnow.holds_mono hk.2 (fun r _ => ⟨rfl, rfl, rfl, fun w' => hge w' r⟩)
        fun w' hw' r => ?_⟩, .idle, ⟨fun _ => nofun, hkn.2.1, trivial⟩, rfl⟩
    · rcases hcases w' r hr with h | ⟨rfl, -⟩
      exacts [hok.opened w' r h, hok.opened w' p hp]
    · rcases hcases w' r hr with h | ⟨-, rfl⟩
      exacts [hok.bound w' r h, hq]
    · -- the end that somebody has open is not the one that is being closed
      by_contra hr
      rcases hcases w' r (by simpa using hr) with h | ⟨rfl, -⟩
      · rw [hw' r] at h
        cases h
      · rw [hw' p] at hp
        cases hp
  next => exact ⟨hok, rfl, fun _ h => h, fun _ _ _ _ hk => hk, .idle, hkn, rfl⟩

end Ends

/-! ### Runs -/

section Runs

variable {n ncpu p : Nat} {strict : Bool} {c : Threads Tid Label (Machine PipeData) Panic}

lemma safe_pipeCalls (t : Tid) (q : Code PipeData Unit) (h : PipeCalls n t q) :
    q.safe (pipeOutline n strict) t (off .idle) fun _ m => m = off .idle := by
  cases h with
  | write p addr k delay turns => exact safe_callWrite addr k delay turns
  | read p k delay turns => exact safe_callRead k delay turns
  | close p w => exact safe_fileclose w
  | dup p q w => exact safe_filedup q w
  | other h => exact safe_ownCalls (P := pipeMonitor n strict) h

lemma pipeStart_safe (hn : 0 < n) (hp : p < n) :
    (pipeStart n ncpu p).Safe (pipeOutline n strict) (off .idle) := by
  refine Threads.safe_of_idle ⟨boot_inv hn, ?_⟩ fun _ => rfl
  refine ⟨fun t y d h => (nomatch h), ⟨⟨[], rfl, by simp, Nat.two_pow_pos 32, rfl, nofun⟩,
    fun w q _ => by cases w <;> rfl, fun w q hq => ?_, nofun⟩,
    fun p h => absurd h (boot_not_sleeping p), fun t chan h => (nomatch h),
    fun t => ⟨fun _ => nofun, ?_⟩, fun p h => absurd h (boot_not_sleeping p)⟩
  · have : (q == p) = true := hq
    rw [beq_iff_eq] at this
    omega
  · cases t with
    | proc q => exact ⟨rfl, trivial⟩
    | cpu c => trivial

/-- The pipe, in every state reached. -/
lemma pipe_inv {cond : Tid → Label → Machine PipeData → Prop} (strict : Bool) (hn : 0 < n)
    (hp : p < n) (hrun : Threads.Run (PipeCalls n) cond (pipeStart n ncpu p) c)
    (hcond : ∀ t l s, cond t l s → pipeCond strict t l s) :
    ∃ mode, (pipeOutline n strict).inv c.state mode := by
  obtain ⟨mode, hJ, -⟩ := (pipeStart_safe hn hp).run hrun safe_pipeCalls hcond
  exact ⟨mode, hJ⟩

end Runs

/-- Pipes are queues that lose nothing: bytes are taken in the order in which they were stored,
`piperead` hands over those that its process has taken, and `pipewrite` returns `n` only if it has
stored what it was given. -/
theorem pipe_is_fifo {n ncpu p : Nat} (hn : 0 < n) (hp : p < n)
    {c : Threads Tid Label (Machine PipeData) Panic}
    (hrun : Threads.Run (PipeCalls n) Always (pipeStart n ncpu p) c) :
    (c.state.data.core.pipe.nwrite + 2 ^ 32 - c.state.data.core.pipe.nread) % 2 ^ 32 ≤ PIPESIZE ∧
    c.state.data.core.taken.map Prod.snd <+: c.state.data.core.sent ∧
    (∀ q, c.state.data.handed q <+: c.state.data.takenBy q ∧
      (c.thread (.proc q) = .ret () → c.state.data.handed q = c.state.data.takenBy q)) ∧
    ∀ r ∈ c.state.data.returned, r.result = r.n → r.stored = r.given := by
  have hstart : (pipeStart n ncpu p).Safe (pipeOutline n false) (off .idle) := pipeStart_safe hn hp
  obtain ⟨mode, ⟨-, hM⟩, hsafe⟩ := hstart.run hrun safe_pipeCalls fun _ _ _ _ h => (nomatch h)
  obtain ⟨l, hl⟩ := hM.ok.queue
  refine ⟨?_, ⟨l, hl.sent.symm⟩, fun q => ⟨⟨_, (hM.knows (.proc q)).2.1.symm⟩, fun hq => ?_⟩,
    hM.ok.returned⟩
  swap
  · -- a process that is in no call has got all that it has taken
    have hidle := hsafe (.proc q)
    rw [hq] at hidle
    have htook := (hM.knows (.proc q)).2.1
    rw [show mode (.proc q) = off .idle from hidle] at htook
    exact (htook.trans (append_nil _)).symm
  have h1 := hl.length
  have h2 := hl.nread
  rw [hl.nwrite]
  simp only [PIPESIZE] at h1 ⊢
  omega

/-- A schedule in which the first CPU runs init, which uses the pipe. -/
def pipeByInit (calls : List (Code PipeData Unit × Nat)) :
    List (Threads.Move Tid Label (Machine PipeData) Panic) :=
  .start (.cpu 0) (scheduler 0 64) :: .acts (.cpu 0) 4 ::
    .start (.proc initproc) (forkret initproc) :: .acts (.proc initproc) 1 ::
    calls.flatMap fun (q, k) => [.start (.proc initproc) q, .acts (.proc initproc) k]

lemma pipeByInit_calls {calls : List (Code PipeData Unit × Nat)}
    (hcalls : ∀ q k, (q, k) ∈ calls → PipeCalls 64 (.proc initproc) q) (t : Tid)
    (q : Code PipeData Unit) (h : .start t q ∈ pipeByInit calls) : PipeCalls 64 t q := by
  simp only [pipeByInit, mem_cons, mem_flatMap, reduceCtorEq, false_or, or_false,
    not_mem_nil, Threads.Move.start.injEq] at h
  rcases h with ⟨rfl, rfl⟩ | ⟨rfl, rfl⟩ | ⟨⟨q', k⟩, hmem, rfl, rfl⟩
  · exact .other (.cpu 0)
  · exact .other (.proc initproc (by decide) .forkret nofun)
  · exact hcalls q k hmem

/-- Init writes two bytes and reads one. -/
theorem pipe_is_fifo_read : ∃ c : Threads Tid Label (Machine PipeData) Panic,
    c.state.data.core.sent = [7, 8] ∧ c.state.data.handed initproc = [7] ∧
    c.state.data.handed initproc = c.state.data.takenBy initproc ∧
    c.state.data.core.taken.map Prod.snd <+: c.state.data.core.sent := by
  obtain ⟨c, hc, h1, h2, h3⟩ : ∃ c, Threads.exec (fun _ _ _ => true)
      (pipeByInit [(callWrite initproc (fun i => if i = 0 then 7 else 8) 2 (fun _ => 0) 3, 13),
        (callRead initproc 1 (fun _ => 0) 1, 12)]) (pipeStart 64 8 initproc) = some c ∧
      c.state.data.core.sent = [7, 8] ∧ c.state.data.handed initproc = [7] ∧
      c.thread (.proc initproc) = .ret () := ⟨_, rfl, rfl, rfl, rfl⟩
  have hrun : Threads.Run (PipeCalls 64) Always (pipeStart 64 8 initproc) c :=
    Threads.exec_run hc (fun _ _ _ _ => trivial) (pipeByInit_calls fun q k h => ?_)
  · obtain ⟨-, hfifo, hhanded, -⟩ := pipe_is_fifo (by decide) (by decide) hrun
    exact ⟨c, h1, h2, (hhanded initproc).2 h3, hfifo⟩
  · simp only [mem_cons, not_mem_nil, or_false, Prod.mk.injEq] at h
    rcases h with ⟨rfl, -⟩ | ⟨rfl, -⟩
    · exact .write ..
    · exact .read ..

/-- No sleeper is forgotten if writers that are killed give up only when they owe no `wakeup`. -/
theorem no_pipe_sleeper_forgotten {n ncpu p : Nat} (hn : 0 < n) (hp : p < n)
    {c : Threads Tid Label (Machine PipeData) Panic}
    (hrun : Threads.Run (PipeCalls n) GivesUpPaid (pipeStart n ncpu p) c)
    (hfree : c.state.lock pipeLock = none) (q : Nat) (hq : (c.state.proc q).state = .sleeping) :
    ((c.state.proc q).chan = nreadChan →
      c.state.data.core.pipe.empty = true ∧ c.state.data.core.pipe.writeopen = true) ∧
    ((c.state.proc q).chan = nwriteChan →
      c.state.data.core.pipe.full = true ∧ c.state.data.core.pipe.readopen = true) := by
  obtain ⟨mode, ⟨-, hC, -⟩, hM⟩ := pipe_inv true hn hp hrun fun _ _ _ h _ => h
  have hnot : (pipeMonitor n true).due c.state.data (c.state.proc q).chan ≠ true := fun hdue => by
    obtain ⟨t, ⟨x, ht⟩ | ht⟩ := hM.asleep q hq hdue
    · exact (hM.inside t _ _ ht).1.locked hC hfree
    · exact (hM.knows t).1 _ ht
  have hknow := (hM.knows (.proc q)).2
  refine ⟨fun hchan => ?_, fun hchan => ?_⟩
  · have hopen : c.state.data.core.pipe.readopen = true := by
      rcases hM.may q hq with h | ⟨⟨l, h⟩, -⟩ | ⟨-, h⟩
      · exact absurd hchan h.1
      · rw [h] at hknow
        exact hM.ok.opened false q hknow.2
      · rw [hchan] at h
        cases h
    rw [hchan, ne_eq, pipe_due] at hnot
    simpa [hopen, nreadChan, nwriteChan] using hnot
  · have hopen : c.state.data.core.pipe.writeopen = true := by
      rcases hM.may q hq with h | ⟨-, h⟩ | ⟨⟨l, h⟩, -⟩
      · exact absurd hchan h.2
      · rw [hchan] at h
        cases h
      · rw [h] at hknow
        exact hM.ok.opened true q hknow.2.1
    rw [hchan, ne_eq, pipe_due] at hnot
    simpa [hopen, nreadChan, nwriteChan] using hnot

/-- Init waits for bytes. -/
theorem no_pipe_sleeper_forgotten_waiting : ∃ c : Threads Tid Label (Machine PipeData) Panic,
    (c.state.proc initproc).state = .sleeping ∧ (c.state.proc initproc).chan = nreadChan ∧
    c.state.data.core.pipe.empty = true ∧ c.state.data.core.pipe.writeopen = true := by
  obtain ⟨c, hc, h1, h2, h3⟩ : ∃ c, Threads.exec (fun _ l _ => decide (l ≠ .giveUp))
      (pipeByInit [(callRead initproc 1 (fun _ => 0) 1, 11)])
      (pipeStart 64 8 initproc) = some c ∧ (c.state.proc initproc).state = .sleeping ∧
      (c.state.proc initproc).chan = nreadChan ∧ c.state.lock pipeLock = none :=
    ⟨_, rfl, rfl, rfl, rfl⟩
  refine ⟨c, h1, h2, (no_pipe_sleeper_forgotten (n := 64) (by decide) (by decide)
    (Threads.exec_run hc (fun t l s h p _ hl => ?_) (pipeByInit_calls fun q k h => ?_)) h3 initproc
    h1).1 h2⟩
  · exact absurd hl (of_decide_eq_true h)
  · obtain ⟨rfl, -⟩ := Prod.mk.inj (mem_singleton.mp h)
    exact .read ..

/-- Init shares the read end with process 1, which sleeps in `piperead`, and the write end with
process 2, which fills the pipe and is killed. -/
def killedWriter : List (Threads.Move Tid Label (Machine PipeData) Panic) :=
  pipeByInit
    [((Call.fork ⟨true, true, fun _ => 0⟩).code 64 initproc, 10),
      ((Call.fork ⟨true, true, fun _ => 0⟩).code 64 initproc, 11),
      (filedup initproc 1 false, 1), (filedup initproc 2 true, 1)] ++
  [.start (.cpu 1) (scheduler 1 64), .acts (.cpu 1) 5,
    .start (.proc 1) (forkret 1), .acts (.proc 1) 1,
    .start (.proc 1) (callRead 1 1 (fun _ => 0) 1), .acts (.proc 1) 11,
    .acts (.cpu 1) 2, .start (.proc 2) (forkret 2), .acts (.proc 2) 1,
    .start (.proc 2) (callWrite 2 (fun _ => 0) 513 (fun _ => 0) 513),
    .acts (.proc 2) 1026,
    .start (.proc initproc) ((Call.kill 3).code 64 initproc), .acts (.proc initproc) 5,
    .acts (.proc 2) 4]

lemma killedWriter_calls (t : Tid) (q : Code PipeData Unit) (h : .start t q ∈ killedWriter) :
    PipeCalls 64 t q := by
  rcases mem_append.mp h with h | h
  · refine pipeByInit_calls (fun q k hq => ?_) t q h
    simp only [mem_cons, not_mem_nil, or_false, Prod.mk.injEq] at hq
    rcases hq with ⟨rfl, -⟩ | ⟨rfl, -⟩ | ⟨rfl, -⟩ | ⟨rfl, -⟩
    · exact .other (.proc initproc (by decide) _ nofun)
    · exact .other (.proc initproc (by decide) _ nofun)
    · exact .dup ..
    · exact .dup ..
  · simp only [mem_cons, reduceCtorEq, false_or, or_false, not_mem_nil,
      Threads.Move.start.injEq] at h
    rcases h with ⟨rfl, rfl⟩ | ⟨rfl, rfl⟩ | ⟨rfl, rfl⟩ | ⟨rfl, rfl⟩ | ⟨rfl, rfl⟩ | ⟨rfl, rfl⟩
    · exact .other (.cpu 1)
    · exact .other (.proc 1 (by decide) .forkret nofun)
    · exact .read ..
    · exact .other (.proc 2 (by decide) .forkret nofun)
    · exact .write ..
    · exact .other (.proc initproc (by decide) _ nofun)

/-- The writer gives up without a `wakeup` for the bytes it has stored: the reader sleeps although
the pipe is full. -/
theorem killed_writer_forgets_reader : ∃ c : Threads Tid Label (Machine PipeData) Panic,
    Threads.Run (PipeCalls 64) Always (pipeStart 64 8 initproc) c ∧
    c.state.lock pipeLock = none ∧ (c.state.proc 1).state = .sleeping ∧
    (c.state.proc 1).chan = nreadChan ∧ c.state.data.core.pipe.empty = false := by
  have hexec : (Threads.exec (fun _ _ _ => true) killedWriter (pipeStart 64 8 initproc)).map
      (fun c => (c.state.lock pipeLock, (c.state.proc 1).state, (c.state.proc 1).chan,
        c.state.data.core.pipe.empty)) = some (none, .sleeping, nreadChan, false) := by
    decide +kernel
  obtain ⟨c, hc, hst⟩ := Option.map_eq_some_iff.mp hexec
  simp only [Prod.mk.injEq] at hst
  exact ⟨c, Threads.exec_run hc (fun _ _ _ _ => trivial) killedWriter_calls, hst⟩

end Xv6.Kernel
