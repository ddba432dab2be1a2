import Xv6.Kernel.Frame

/-!
# Monitors

Code that keeps its data under a spin lock, sleeps until it finds the data as it needs them, and
wakes sleepers up when it has changed them. A thread that holds the lock knows the data. A thread
that has given sleepers a reason to wake up owes them a `wakeup`, and what is proved is that no
process sleeps on a channel with a reason to wake up unless some thread owes it that `wakeup`.
-/

namespace Xv6.Kernel

open Lib Prog Function

/-- Where a thread is with respect to a monitor. -/
inductive Spot (X : Type)
  /-- It is not in the monitor. -/
  | away
  /-- It holds the lock, knows the data, and may owe sleepers a `wakeup`. -/
  | inside (x : X) (debt : Option Chan)
  /-- It has released the lock to sleep on a channel, and holds `ptable.lock`. -/
  | committed (chan : Chan)
  /-- It has released the lock and owes sleepers a `wakeup`. -/
  | owing (chan : Chan)

/-- The thread owes the sleepers on a channel a `wakeup`. -/
def Spot.owes {X : Type} (sp : Spot X) (chan : Chan) : Prop :=
  (∃ x, sp = .inside x (some chan)) ∨ sp = .owing chan

/-- A monitor: its lock, the data `val` that the lock protects, what holds of all its data, and the
channels whose sleepers have a reason to wake up. `own` are the channels of other code. Threads may
know more, of kind `K`, that other threads do not change, such as what they themselves have done. -/
structure Monitor (D X K : Type) where
  lk : Lk
  val : D → X
  ok : D → Prop
  due : D → Chan → Bool
  own : Chan → Prop
  due_own : ∀ d chan, own chan → due d chan = false
  own_null : own .null
  knows : Tid → Spot X → K → D → Prop
  knows_spot : ∀ t κ d sp sp', (∀ chan, ¬sp'.owes chan) → knows t sp κ d → knows t sp' κ d
  /-- With this knowledge a process may sleep on this channel. -/
  may : K → Chan → Prop

/-- The mode of a thread: that for the process table, and that for the monitor. -/
structure MonMode (X K : Type) where
  base : Mode
  spot : Spot X
  know : K

namespace Monitor

variable {D X K : Type} {P : Monitor D X K}

/-- The thread holds the lock of the monitor. -/
def Holds (P : Monitor D X K) (s : Machine D) (b : Mode) (t : Tid) : Prop :=
  match P.lk with
  | .ptable => b.phase = .locked
  | .other k => ∃ c, s.lock (.other k) = some c ∧ s.cur c = t

/-- The invariant of a monitor. -/
structure Inv (P : Monitor D X K) (s : Machine D) (mode : Tid → MonMode X K) : Prop where
  inside : ∀ t x d, (mode t).spot = .inside x d → P.Holds s (mode t).base t ∧ P.val s.data = x
  ok : P.ok s.data
  asleep : ∀ p, (s.proc p).state = .sleeping → P.due s.data (s.proc p).chan = true →
    ∃ t, (mode t).spot.owes (s.proc p).chan
  committed : ∀ t chan, (mode t).spot = .committed chan → (mode t).base.phase = .locked ∧
    (P.due s.data chan = true → ∃ t', (mode t').spot.owes chan)
  knows : ∀ t, P.knows t (mode t).spot (mode t).know s.data
  may : ∀ p, (s.proc p).state = .sleeping →
    P.own (s.proc p).chan ∨ P.may (mode (.proc p)).know (s.proc p).chan

/-- The outline of a monitor on top of that of the process table. -/
def outline (P : Monitor D X K) (n : Nat) (cond : Tid → Label → Machine D → Prop) :
    Outline Tid Label (Machine D) (MonMode X K) where
  inv s mode := (tableOutline n).inv s (fun t => (mode t).base) ∧ P.Inv s mode
  guar _ _ _ _ := True
  cond := cond

/-! ### Frames -/

section Frames

variable {s s' : Machine D} {mode : Tid → MonMode X K} {t t' : Tid} {b b' : Mode} {sp : Spot X}
  {κ : K} {n : Nat} {cond : Tid → Label → Machine D → Prop} {α : Type}

lemma base_update (mode : Tid → MonMode X K) (t : Tid) (m : MonMode X K) :
    (fun t' => (update mode t m t').base) =
      update (fun t' => (mode t').base) t m.base := by
  funext t'
  by_cases h : t' = t
  · rw [h, update_self, update_self]
  · rw [update_of_ne h, update_of_ne h]

/-- Two threads cannot hold the lock. -/
lemma exclusive (hC : Cpus s fun t => (mode t).base) (h : P.Holds s (mode t).base t)
    (h' : P.Holds s (mode t').base t') : t = t' := by
  unfold Holds at h h'
  cases hlk : P.lk with
  | ptable =>
    rw [hlk] at h h'
    obtain ⟨c, -, hcur, hl⟩ := hC.held t (by rw [h]; simp) (by rw [h]; simp)
    rw [← hcur]
    exact hC.held_eq hl (by rw [h']; simp) (by rw [h']; simp)
  | other k =>
    rw [hlk] at h h'
    obtain ⟨c, hl, hcur⟩ := h
    obtain ⟨c', hl', hcur'⟩ := h'
    rw [hl] at hl'
    rw [← hcur, ← hcur', Option.some.inj hl']

/-- The lock of the monitor stays with the thread that holds it. -/
lemma Holds.frame (h : P.Holds s b t') (hF : Frame P.own t s s') (hne : t' ≠ t) :
    P.Holds s' b t' := by
  unfold Holds at h ⊢
  cases hlk : P.lk with
  | ptable =>
    rw [hlk] at h
    exact h
  | other k =>
    rw [hlk] at h
    obtain ⟨c, hl, hcur⟩ := h
    have hct : s.cur c ≠ t := fun e => hne (hcur.symm.trans e)
    exact ⟨c, hF.lock k c hl hct, (hF.cur c hct).trans hcur⟩

/-- A debt stays if the thread that acts keeps its own. -/
lemma owes_keep {m : MonMode X K} {chan : Chan} (h : ∃ t', (mode t').spot.owes chan)
    (ht : (mode t).spot.owes chan → m.spot.owes chan) :
    ∃ t', (update mode t m t').spot.owes chan := by
  obtain ⟨t', h'⟩ := h
  by_cases he : t' = t
  · refine ⟨t, ?_⟩
    rw [update_self]
    exact ht (he ▸ h')
  · refine ⟨t', ?_⟩
    rwa [update_of_ne he]

/-- What an action of thread `t` has to keep. -/
lemma Inv.moved (h : P.Inv s mode) {m : MonMode X K} (hok : P.ok s'.data)
    (hinside : ∀ t' x d, t' ≠ t → (mode t').spot = .inside x d →
      P.Holds s' (mode t').base t' ∧ P.val s'.data = x)
    (hinside' : ∀ x d, m.spot = .inside x d → P.Holds s' m.base t ∧ P.val s'.data = x)
    (hasleep : ∀ p, (s'.proc p).state = .sleeping → P.due s'.data (s'.proc p).chan = true →
      ∃ t', (update mode t m t').spot.owes (s'.proc p).chan)
    (hcomm : ∀ t' chan, t' ≠ t → (mode t').spot = .committed chan →
      P.due s'.data chan = true → ∃ t', (update mode t m t').spot.owes chan)
    (hcomm' : ∀ chan, m.spot = .committed chan → m.base.phase = .locked ∧
      (P.due s'.data chan = true → ∃ t', (update mode t m t').spot.owes chan))
    (hknows : ∀ t', t' ≠ t → P.knows t' (mode t').spot (mode t').know s'.data)
    (hknows' : P.knows t m.spot m.know s'.data)
    (hmay : ∀ p, Tid.proc p ≠ t → (s'.proc p).state = .sleeping →
      P.own (s'.proc p).chan ∨ P.may (mode (.proc p)).know (s'.proc p).chan)
    (hmay' : ∀ p, Tid.proc p = t → (s'.proc p).state = .sleeping →
      P.own (s'.proc p).chan ∨ P.may m.know (s'.proc p).chan) :
    P.Inv s' (update mode t m) := by
  have hself : update mode t m t = m := update_self ..
  have hother : ∀ t', t' ≠ t → update mode t m t' = mode t' := fun t' ht =>
    update_of_ne ht ..
  refine ⟨fun t' x d hx => ?_, hok, hasleep, fun t' chan hc => ?_, fun t' => ?_, fun p hp => ?_⟩
  · by_cases ht : t' = t
    · rw [ht, hself] at hx ⊢
      exact hinside' x d hx
    · rw [hother t' ht] at hx ⊢
      exact hinside t' x d ht hx
  · by_cases ht : t' = t
    · rw [ht, hself] at hc ⊢
      exact hcomm' chan hc
    · rw [hother t' ht] at hc ⊢
      exact ⟨(h.committed t' chan hc).1, hcomm t' chan ht hc⟩
  · by_cases ht : t' = t
    · rw [ht, hself]
      exact hknows'
    · rw [hother t' ht]
      exact hknows t' ht
  · by_cases ht : Tid.proc p = t
    · rw [ht, hself]
      exact hmay' p ht hp
    · rw [hother _ ht]
      exact hmay p ht hp

/-- The calls of other code, made by a thread that is not in the monitor, keep its invariant. -/
lemma Inv.frame (h : P.Inv s mode) (hF : Frame P.own t s s')
    (hsp : (mode t).spot = .away ∨ ∃ chan, (mode t).spot = .owing chan) (b : Mode) :
    P.Inv s' (update mode t ⟨b, (mode t).spot, (mode t).know⟩) := by
  have hnot : (∀ x d, (mode t).spot ≠ .inside x d) ∧ ∀ chan, (mode t).spot ≠ .committed chan := by
    rcases hsp with hs | ⟨chan, hs⟩ <;> rw [hs] <;> exact ⟨fun _ _ => nofun, fun _ => nofun⟩
  have hmay : ∀ p, (s'.proc p).state = .sleeping →
      P.own (s'.proc p).chan ∨ P.may (mode (.proc p)).know (s'.proc p).chan := fun p hp => by
    rcases hF.asleep p hp with ⟨h1, h2⟩ | ⟨-, hown⟩
    · rw [h2]
      exact h.may p h1
    · exact .inl hown
  refine h.moved (hF.data ▸ h.ok) (fun t' x d ht hx => ?_) (fun x d hx => absurd hx (hnot.1 x d))
    (fun p hp hdue => ?_) (fun t' chan _ hc hdue => ?_) (fun chan hc => absurd hc (hnot.2 chan))
    (fun t' _ => hF.data ▸ h.knows t') (hF.data ▸ h.knows t) (fun p _ => hmay p) fun p hp => ?_
  · rw [hF.data]
    exact ⟨(h.inside t' x d hx).1.frame hF ht, (h.inside t' x d hx).2⟩
  · rw [hF.data] at hdue
    rcases hF.asleep p hp with ⟨h1, h2⟩ | ⟨-, hown⟩
    · rw [h2] at hdue ⊢
      exact owes_keep (h.asleep p h1 hdue) id
    · rw [P.due_own _ _ hown] at hdue
      cases hdue
  · rw [hF.data] at hdue
    exact owes_keep ((h.committed t' chan hc).2 hdue) id
  · subst hp
    exact hmay p

/-- Actions of a thread with the lock of the monitor on the process table. -/
lemma Inv.still (h : P.Inv s mode) (hS : Still s s') (hlk : P.lk ≠ .ptable)
    (hsp : ∀ chan, (mode t).spot ≠ .committed chan) (b : Mode) :
    P.Inv s' (update mode t ⟨b, (mode t).spot, (mode t).know⟩) := by
  have hholds : ∀ t' b b', P.Holds s b t' → P.Holds s' b' t' := fun t' b b' hh => by
    unfold Holds at hh ⊢
    cases hk : P.lk with
    | ptable => exact absurd hk hlk
    | other k =>
      rw [hk] at hh
      obtain ⟨c, hl, hcur⟩ := hh
      exact ⟨c, (hS.lock k).trans hl, (hS.cur c).trans hcur⟩
  have hmay : ∀ p, (s'.proc p).state = .sleeping →
      P.own (s'.proc p).chan ∨ P.may (mode (.proc p)).know (s'.proc p).chan := fun p hp => by
    rw [(hS.asleep p hp).2]
    exact h.may p (hS.asleep p hp).1
  refine h.moved (hS.data ▸ h.ok) (fun t' x d _ hx => ?_) (fun x d hx => ?_) (fun p hp hdue => ?_)
    (fun t' chan _ hc hdue => ?_) (fun chan hc => absurd hc (hsp chan))
    (fun t' _ => hS.data ▸ h.knows t') (hS.data ▸ h.knows t) (fun p _ => hmay p) fun p hp => ?_
  · rw [hS.data]
    exact ⟨hholds t' _ _ (h.inside t' x d hx).1, (h.inside t' x d hx).2⟩
  · rw [hS.data]
    exact ⟨hholds t _ _ (h.inside t x d hx).1, (h.inside t x d hx).2⟩
  · obtain ⟨h1, h2⟩ := hS.asleep p hp
    rw [hS.data, h2] at hdue
    rw [h2]
    exact owes_keep (h.asleep p h1 hdue) id
  · rw [hS.data] at hdue
    exact owes_keep ((h.committed t' chan hc).2 hdue) id
  · subst hp
    exact hmay p

/-- A call of other code. -/
lemma safe_frame {q : Code D α} {Q : α → Mode → Prop} (hq : q.safe (tableOutline n) t b Q)
    (ha : q.acts (Frame P.own t)) (hsp : sp = .away ∨ ∃ chan, sp = .owing chan) :
    q.safe (P.outline n cond) t ⟨b, sp, κ⟩ fun a m => ∃ b', m = ⟨b', sp, κ⟩ ∧ Q a b' := by
  refine safe_lift (π := MonMode.base) (f := fun b => ⟨b, sp, κ⟩) hq ha (fun _ => rfl)
    (fun s mode h => h.1) (fun _ _ _ => trivial) fun l s s' mode m m' hJ hm hR _ hJ' => ?_
  refine ⟨trivial, ?_, ?_⟩
  · rw [base_update]
    exact hJ'
  · have := hJ.2.frame hR (by rw [hm]; exact hsp) m'
    rwa [hm] at this

/-- A call on the process table by a thread that may hold the lock of the monitor. -/
lemma safe_still {q : Code D α} {Q : α → Mode → Prop} (hq : q.safe (tableOutline n) t b Q)
    (ha : q.acts Still) (hlk : P.lk ≠ .ptable) (hsp : ∀ chan, sp ≠ .committed chan) :
    q.safe (P.outline n cond) t ⟨b, sp, κ⟩ fun a m => ∃ b', m = ⟨b', sp, κ⟩ ∧ Q a b' := by
  refine safe_lift (π := MonMode.base) (f := fun b => ⟨b, sp, κ⟩) hq ha (fun _ => rfl)
    (fun s mode h => h.1) (fun _ _ _ => trivial) fun l s s' mode m m' hJ hm hR _ hJ' => ?_
  refine ⟨trivial, ?_, ?_⟩
  · rw [base_update]
    exact hJ'
  · have := hJ.2.still hR hlk (by rw [hm]; exact hsp) m'
    rwa [hm] at this

end Frames

/-! ### The lock -/

section Lock

variable {s s' : Machine D} {mode : Tid → MonMode X K} {t t' : Tid} {b : Mode} {sp : Spot X}
  {x : X} {d : Option Chan} {κ κ' : K} {n : Nat} {cond : Tid → Label → Machine D → Prop} {α : Type}

/-- Threads that hold the lock are known to the lock. -/
lemma Holds.locked (hC : Cpus s fun t => (mode t).base) (h : P.Holds s (mode t).base t) :
    s.lock P.lk ≠ none := by
  unfold Holds at h
  cases hlk : P.lk with
  | ptable =>
    rw [hlk] at h
    obtain ⟨c, -, -, hl⟩ := hC.held t (by rw [h]; simp) (by rw [h]; simp)
    simp [hl]
  | other k =>
    rw [hlk] at h
    obtain ⟨c, hl, -⟩ := h
    simp [hl]

/-- A process that acts, and is not about to call `swtch`, does not sleep. -/
lemma not_sleeping {c p : Nat} (hC : Cpus s fun t => (mode t).base)
    (hc : s.cpu (.proc p) = some c) (hp : (mode (.proc p)).base.phase ≠ .leaving) :
    (s.proc p).state ≠ .sleeping := by
  have := hC.running hc hp
  simp [this]

/-- A thread takes the lock. -/
lemma Inv.enter (hC : Cpus s fun t => (mode t).base) (h : P.Inv s mode)
    (hsp : (mode t).spot = .away) (hfree : s.lock P.lk = none) (hproc : s'.proc = s.proc)
    (hdata : s'.data = s.data) (hholds : P.Holds s' b t) :
    P.Inv s' (update mode t ⟨b, .inside (P.val s.data) none, (mode t).know⟩) := by
  have hnone : ∀ t' x d, (mode t').spot ≠ .inside x d := fun t' x d hx =>
    (h.inside t' x d hx).1.locked hC hfree
  have howes : ∀ chan, ¬(mode t).spot.owes chan := by
    rw [hsp]
    rintro chan (⟨x, hx⟩ | hx) <;> cases hx
  refine h.moved (hdata ▸ h.ok) (fun t' x d _ hx => absurd hx (hnone t' x d)) (fun x d hx => ?_)
    (fun p hp hdue => ?_) (fun t' chan _ hc hdue => ?_) (fun chan hc => nomatch hc)
    (fun t' _ => hdata ▸ h.knows t') ?_ (fun p _ hp => ?_) fun p hpt hp => ?_
  · obtain ⟨rfl, -⟩ := Spot.inside.inj hx
    exact ⟨hholds, by rw [hdata]⟩
  · rw [hdata, hproc] at hdue
    rw [hproc] at hp ⊢
    exact owes_keep (h.asleep p hp hdue) fun ho => absurd ho (howes _)
  · rw [hdata] at hdue
    exact owes_keep ((h.committed t' chan hc).2 hdue) fun ho => absurd ho (howes _)
  · refine P.knows_spot t _ _ _ _ ?_ (hdata ▸ h.knows t)
    rintro chan (⟨y, hy⟩ | hy) <;> cases hy
  · rw [hproc] at hp ⊢
    exact h.may p hp
  · subst hpt
    rw [hproc] at hp ⊢
    exact h.may p hp

/-- A thread gives up the lock. -/
lemma Inv.leave (hC : Cpus s fun t => (mode t).base) (h : P.Inv s mode)
    (hx : (mode t).spot = .inside x d) (hproc : s'.proc = s.proc) (hdata : s'.data = s.data)
    (hsp : ∀ x d, sp ≠ .inside x d)
    (hdebt : ∀ chan, d = some chan → P.due s.data chan = true → sp = .owing chan)
    (hcomm : ∀ chan, sp = .committed chan → b.phase = .locked ∧ P.due s.data chan = false)
    (hknows : P.knows t sp κ s.data)
    (hawake : ∀ p, Tid.proc p = t → (s.proc p).state ≠ .sleeping) :
    P.Inv s' (update mode t ⟨b, sp, κ⟩) := by
  have hnone : ∀ t' x d, t' ≠ t → (mode t').spot ≠ .inside x d := fun t' x d ht hx' =>
    ht (exclusive hC (h.inside t' x d hx').1 (h.inside t _ _ hx).1)
  have howes : ∀ chan, P.due s.data chan = true → (mode t).spot.owes chan → sp.owes chan := by
    rw [hx]
    rintro chan hdue (⟨y, hy⟩ | hy)
    · exact .inr (hdebt chan (Spot.inside.inj hy).2 hdue)
    · cases hy
  refine h.moved (hdata ▸ h.ok) (fun t' x d ht hx => absurd hx (hnone t' x d ht))
    (fun x d hx => absurd hx (hsp x d)) (fun p hp hdue => ?_) (fun t' chan _ hc hdue => ?_)
    (fun chan hc => ⟨(hcomm chan hc).1, fun hdue => ?_⟩) (fun t' _ => hdata ▸ h.knows t')
    (hdata ▸ hknows) (fun p _ hp => ?_) fun p hpt hp => ?_
  · rw [hdata, hproc] at hdue
    rw [hproc] at hp ⊢
    exact owes_keep (h.asleep p hp hdue) (howes _ hdue)
  · rw [hdata] at hdue
    exact owes_keep ((h.committed t' chan hc).2 hdue) (howes _ hdue)
  · rw [hdata, (hcomm chan hc).2] at hdue
    cases hdue
  · rw [hproc] at hp ⊢
    exact h.may p hp
  · rw [hproc] at hp
    exact absurd hp (hawake p hpt)

/-- The phase of a thread in the monitor. -/
def phase (P : Monitor D X K) : Phase :=
  match P.lk with
  | .ptable => .locked
  | .other _ => .normal

lemma phase_ne_leaving (P : Monitor D X K) : P.phase ≠ .leaving := by
  unfold phase
  cases P.lk <;> simp

/-- The mode of a thread in the monitor. -/
def within (P : Monitor D X K) (x : X) (d : Option Chan) (κ : K) : MonMode X K :=
  ⟨⟨P.phase, none⟩, .inside x d, κ⟩

/-- The mode of a thread outside the monitor. -/
def off (κ : K) : MonMode X K := ⟨⟨.normal, none⟩, .away, κ⟩

/-- What a thread finds in the monitor. -/
def Finds (P : Monitor D X K) (t : Tid) (κ : K) (m : MonMode X K) : Prop :=
  ∃ dd, m = P.within (P.val dd) none κ ∧ P.ok dd ∧ P.knows t (.inside (P.val dd) none) κ dd

lemma safe_look {f : Machine D → α} {m : MonMode X K} {Q : α → MonMode X K → Prop}
    (h : ∀ s mode, (P.outline n cond).inv s mode → mode t = m → Q (f s) m) :
    (look t f).safe (P.outline n cond) t m Q := by
  intro s mode hJ hm _ _
  refine ⟨trivial, m, ?_, h s mode hJ hm⟩
  rw [← hm, update_eq_self]
  exact hJ

lemma safe_acquire : (acquire t P.lk).safe (P.outline n cond) t (off κ) fun _ => P.Finds t κ := by
  refine safe_then (safe_look (Q := fun _ m => m = off κ) fun _ _ _ _ => rfl) fun held => ?_
  cases held with
  | true => trivial
  | false =>
    rintro s mode ⟨⟨hn, hC, hT⟩, hM⟩ hm hg -
    obtain ⟨hr, hl⟩ := Bool.and_eq_true_iff.mp hg
    obtain ⟨c, hc, hf⟩ := exists_cpu hr
    have hfree := Option.isNone_iff_eq_none.mp hl
    have hbase : (fun t => (mode t).base) t = ⟨.normal, none⟩ := by simp [hm, off]
    have hknow : (mode t).know = κ := by rw [hm]; rfl
    have hkn := hM.knows t
    rw [hknow] at hkn
    refine ⟨trivial, P.within (P.val s.data) none κ, ⟨?_, ?_⟩, s.data, rfl, hM.ok, ?_⟩
    · rw [base_update]
      cases hlk : P.lk with
      | ptable =>
        rw [hlk] at hfree
        have hph : withPhase (fun t => (mode t).base) t .locked =
          update (fun t => (mode t).base) t ⟨.locked, none⟩ := withPhase_eq hbase _
        rw [show (P.within (P.val s.data) none κ).base = ⟨.locked, none⟩ by
          simp [within, phase, hlk], ← hph]
        refine ⟨hn, ?_, ?_⟩
        · exact hC.take hc hfree
        · exact (hT.setPhase (by simp)).same rfl rfl
      | other k =>
        rw [show (P.within (P.val s.data) none κ).base = (fun t => (mode t).base) t by
          rw [hbase]; simp [within, phase, hlk], update_eq_self]
        exact Kernel.Inv.other_lock ⟨hn, hC, hT⟩ rfl rfl rfl rfl (take_lock_ne (by simp))
    · have hholds : P.Holds (s.take t P.lk) ⟨P.phase, none⟩ t := by
        unfold Holds
        cases hlk : P.lk with
        | ptable => simp [phase, hlk]
        | other k => exact ⟨c, by rw [take_lock, hc], (cpu_some hc).2⟩
      rw [← hknow]
      exact hM.enter hC (by rw [hm]; rfl) hfree rfl rfl hholds
    · refine P.knows_spot t _ _ _ _ ?_ hkn
      rintro chan (⟨y, hy⟩ | hy) <;> cases hy

/-- The thread leaves the monitor, with its debt or without one. -/
lemma safe_release (hsp : sp = .away ∨ ∃ chan, sp = .owing chan)
    (hdebt : ∀ dd, P.ok dd → P.val dd = x → ∀ chan, d = some chan → P.due dd chan = true →
      sp = .owing chan)
    (hknows : ∀ dd, P.knows t (.inside x d) κ dd → P.knows t sp κ' dd) :
    (release t P.lk).safe (P.outline n cond) t (P.within x d κ)
      fun _ m => m = ⟨⟨.normal, none⟩, sp, κ'⟩ := by
  rintro s mode ⟨⟨hn, hC, hT⟩, hM⟩ hm hg -
  obtain ⟨c, hc, hf⟩ := exists_cpu hg
  by_cases hh : s.holding t P.lk = true
  · simp only [hh, if_true]
    have hspot : (mode t).spot = .inside x d := by rw [hm]; rfl
    have hknow : (mode t).know = κ := by rw [hm]; rfl
    have hbase : (fun t => (mode t).base) t = ⟨P.phase, none⟩ := by simp [hm, within]
    have hkn := hM.knows t
    rw [hspot, hknow] at hkn
    refine ⟨trivial, _, ⟨?_, ?_⟩, rfl⟩
    · rw [base_update]
      cases hlk : P.lk with
      | ptable =>
        have hph : withPhase (fun t => (mode t).base) t .normal =
          update (fun t => (mode t).base) t ⟨.normal, none⟩ := withPhase_eq hbase _
        rw [← hph]
        refine ⟨hn, ?_, ?_⟩
        · exact hC.drop hc hf (.inl (by rw [hm]; simp [within, phase, hlk]))
        · exact (hT.setPhase (by simp)).same rfl rfl
      | other k =>
        rw [show (⟨.normal, none⟩ : Mode) = (fun t => (mode t).base) t by
          rw [hbase]; simp [phase, hlk], update_eq_self]
        exact Kernel.Inv.other_lock ⟨hn, hC, hT⟩ rfl rfl rfl rfl (drop_lock_ne (by simp))
    · refine hM.leave hC hspot rfl rfl ?_ (hdebt _ hM.ok (hM.inside t x d hspot).2) ?_
        (hknows _ hkn) ?_
      · rcases hsp with rfl | ⟨chan, rfl⟩ <;> simp
      · rcases hsp with rfl | ⟨chan, rfl⟩ <;> simp
      · rintro p rfl
        exact not_sleeping hC hc (by rw [hm]; exact P.phase_ne_leaving)
  · simp only [hh]
    refine ⟨trivial, mode t, ?_, trivial⟩
    rw [update_eq_self]
    exact ⟨⟨hn, hC, hT⟩, hM⟩

end Lock

/-! ### The data -/

section Data

variable {s s' : Machine D} {mode : Tid → MonMode X K} {t t' : Tid} {b : Mode} {sp : Spot X}
  {x x' : X} {d d' : Option Chan} {κ κ' : K} {n : Nat}
  {cond : Tid → Label → Machine D → Prop} {α : Type}

/-- Thread `t` reads the state and changes the data. -/
def access (t : Tid) (l : Label) (f : Machine D → D) (r : Machine D → α) : Code D α :=
  .act l (fun s => s.runs t) (fun s => { s with data := f s }) fun s => .ret (r s)

/-- A change of the data by a thread in the monitor. Sleepers that get a reason to wake up are owed
a `wakeup`. -/
structure Change (P : Monitor D X K) (t : Tid) (dd : D) (d : Option Chan) (dd' : D) (x' : X)
    (d' : Option Chan) (κ' : K) : Prop where
  ok : P.ok dd'
  val : P.val dd' = x'
  due : ∀ chan, P.due dd' chan = true → P.due dd chan = true ∨ d' = some chan
  debt : ∀ chan, d = some chan → d' = some chan
  knows : P.knows t (.inside x' d') κ' dd'
  others : ∀ t' sp κ, t' ≠ t → (∀ x d, sp ≠ .inside x d) → P.knows t' sp κ dd →
    P.knows t' sp κ dd'

lemma Inv.change {dd' : D} (hC : Cpus s fun t => (mode t).base) (h : P.Inv s mode)
    (hx : (mode t).spot = .inside x d) (hch : P.Change t s.data d dd' x' d' κ')
    (hawake : ∀ p, Tid.proc p = t → (s.proc p).state ≠ .sleeping) :
    P.Inv { s with data := dd' } (update mode t ⟨(mode t).base, .inside x' d', κ'⟩) := by
  have hnone : ∀ t' x d, t' ≠ t → (mode t').spot ≠ .inside x d := fun t' x d ht hx' =>
    ht (exclusive hC (h.inside t' x d hx').1 (h.inside t _ _ hx).1)
  have howes : ∀ chan, P.due dd' chan = true →
      (P.due s.data chan = true → ∃ t', (mode t').spot.owes chan) →
      ∃ t', (update mode t ⟨(mode t).base, .inside x' d', κ'⟩ t').spot.owes chan := by
    intro chan hdue hold
    rcases hch.due chan hdue with hdue | hd
    · refine owes_keep (hold hdue) ?_
      rw [hx]
      rintro (⟨y, hy⟩ | hy)
      · exact .inl ⟨x', by rw [hch.debt chan (Spot.inside.inj hy).2]⟩
      · cases hy
    · exact ⟨t, by rw [update_self, hd]; exact .inl ⟨x', rfl⟩⟩
  refine h.moved hch.ok (fun t' x d ht hx => absurd hx (hnone t' x d ht)) (fun y e hy => ?_)
    (fun p hp hdue => howes _ hdue (h.asleep p hp)) (fun t' chan _ hc hdue =>
      howes _ hdue (h.committed t' chan hc).2) (fun chan hc => nomatch hc)
    (fun t' ht => hch.others t' _ _ ht (fun y e => hnone t' y e ht) (h.knows t')) hch.knows
    (fun p _ hp => h.may p hp) fun p hpt hp => absurd hp (hawake p hpt)
  obtain ⟨rfl, -⟩ := Spot.inside.inj hy
  exact ⟨(h.inside t _ _ hx).1, hch.val⟩

/-- A change of data that the lock does not protect. -/
lemma Inv.outside {dd' : D} (h : P.Inv s mode) (hx : (mode t).spot = .away) (hok : P.ok dd')
    (hval : P.val dd' = P.val s.data)
    (hdue : ∀ chan, P.due dd' chan = true → P.due s.data chan = true)
    (hknows : P.knows t .away κ' dd')
    (hothers : ∀ t' sp κ, t' ≠ t → P.knows t' sp κ s.data → P.knows t' sp κ dd')
    (hawake : ∀ p, Tid.proc p = t → (s.proc p).state ≠ .sleeping) :
    P.Inv { s with data := dd' } (update mode t ⟨(mode t).base, .away, κ'⟩) := by
  have hnot : ∀ chan, ¬(mode t).spot.owes chan := by
    rw [hx]
    rintro chan (⟨y, hy⟩ | hy) <;> cases hy
  refine h.moved hok (fun t' x d _ hx => ?_) (fun y e hy => nomatch hy)
    (fun p hp hdue' => owes_keep (h.asleep p hp (hdue _ hdue')) fun ho => absurd ho (hnot _))
    (fun t' chan _ hc hdue' => owes_keep ((h.committed t' chan hc).2 (hdue _ hdue'))
      fun ho => absurd ho (hnot _)) (fun chan hc => nomatch hc)
    (fun t' ht => hothers t' _ _ ht (h.knows t')) hknows (fun p _ hp => h.may p hp)
    fun p hpt hp => absurd hp (hawake p hpt)
  exact ⟨(h.inside t' x d hx).1, hval.trans (h.inside t' x d hx).2⟩

lemma safe_access {l : Label} {f : Machine D → D} {r : Machine D → α} {Q : α → MonMode X K → Prop}
    (h : ∀ s, P.ok s.data → P.val s.data = x → P.knows t (.inside x d) κ s.data → cond t l s →
      ∃ x' d' κ', P.Change t s.data d (f s) x' d' κ' ∧ Q (r s) (P.within x' d' κ')) :
    (access t l f r).safe (P.outline n cond) t (P.within x d κ) Q := by
  rintro s mode ⟨⟨hn, hC, hT⟩, hM⟩ hm hg hcond
  obtain ⟨c, hc, -⟩ := exists_cpu hg
  have hspot : (mode t).spot = .inside x d := by rw [hm]; rfl
  have hkn := hM.knows t
  rw [hspot, show (mode t).know = κ by rw [hm]; rfl] at hkn
  obtain ⟨x', d', κ', hch, hQ⟩ := h s hM.ok (hM.inside t x d hspot).2 hkn hcond
  have hbase : (mode t).base = ⟨P.phase, none⟩ := by rw [hm]; rfl
  have hwithin : P.within x' d' κ' = ⟨(mode t).base, .inside x' d', κ'⟩ := by rw [hbase]; rfl
  refine ⟨trivial, P.within x' d' κ', ⟨?_, ?_⟩, hQ⟩
  · rw [base_update, hwithin, update_eq_self]
    exact Kernel.Inv.other_lock ⟨hn, hC, hT⟩ rfl rfl rfl rfl rfl
  · rw [hwithin]
    refine hM.change hC hspot hch ?_
    rintro p rfl
    exact not_sleeping hC hc (by rw [hbase]; exact P.phase_ne_leaving)

lemma safe_outside {l : Label} {f : Machine D → D} {r : Machine D → α}
    {Q : α → MonMode X K → Prop}
    (h : ∀ s, s.nproc = n → P.ok s.data → P.knows t .away κ s.data → cond t l s →
      P.ok (f s) ∧ P.val (f s) = P.val s.data ∧
      (∀ chan, P.due (f s) chan = true → P.due s.data chan = true) ∧
      (∀ t' sp κ, t' ≠ t → P.knows t' sp κ s.data → P.knows t' sp κ (f s)) ∧
      ∃ κ', P.knows t .away κ' (f s) ∧ Q (r s) (off κ')) :
    (access t l f r).safe (P.outline n cond) t (off κ) Q := by
  rintro s mode ⟨⟨hn, hC, hT⟩, hM⟩ hm hg hcond
  obtain ⟨c, hc, -⟩ := exists_cpu hg
  have hspot : (mode t).spot = .away := by rw [hm]; rfl
  have hkn := hM.knows t
  rw [hspot, show (mode t).know = κ by rw [hm]; rfl] at hkn
  obtain ⟨h1, h2, h3, h4, κ', h5, hQ⟩ := h s hn hM.ok hkn hcond
  have hbase : (mode t).base = ⟨.normal, none⟩ := by rw [hm]; rfl
  have hoff : (off κ' : MonMode X K) = ⟨(mode t).base, .away, κ'⟩ := by rw [hbase]; rfl
  refine ⟨trivial, off κ', ⟨?_, ?_⟩, hQ⟩
  · rw [base_update, hoff, update_eq_self]
    exact Kernel.Inv.other_lock ⟨hn, hC, hT⟩ rfl rfl rfl rfl rfl
  · rw [hoff]
    refine hM.outside hspot h1 h2 h3 h5 h4 ?_
    rintro p rfl
    exact not_sleeping hC hc (by rw [hbase]; simp)

end Data

/-! ### Waking up -/

section Wakeup

variable {s s' : Machine D} {mode : Tid → MonMode X K} {t t' : Tid} {b : Mode} {sp sp' : Spot X}
  {x x' : X} {d d' : Option Chan} {κ κ' : K} {n : Nat} {chan : Chan}
  {cond : Tid → Label → Machine D → Prop} {α : Type}

/-- The loop of `wakeup` over the table, noted in the data. -/
def scan (t : Tid) (chan : Chan) (f : D → D) : Code D Unit :=
  store t .tau fun s => { s.wakeup1 chan with data := f s.data }

/-- `wakeup`, noted in the data. -/
def wakeupNote (t : Tid) (chan : Chan) (f : D → D) : Code D Unit := do
  acquire t .ptable
  scan t chan f
  release t .ptable

lemma wakeupNote_id (t : Tid) (chan : Chan) : wakeupNote (D := D) t chan id = wakeup t chan := rfl

/-- After the loop of `wakeup` nobody sleeps on the channel, and nobody is about to: that thread
would hold `ptable.lock`. -/
lemma Inv.scan {dd' : D} (hC : Cpus s fun t => (mode t).base) (h : P.Inv s mode)
    (hlocked : (mode t).base.phase = .locked) (hdebt : ∀ c, (mode t).spot.owes c → c = chan)
    (hok : P.ok dd')
    (hdue : ∀ c, P.due dd' c = true → P.due s.data c = true)
    (hval : ∀ t' x d, t' ≠ t → (mode t').spot = .inside x d → P.val dd' = x)
    (hself : ∀ x d, sp' = .inside x d → P.Holds s (mode t).base t ∧ P.val dd' = x)
    (hsp' : ∀ c, sp' ≠ .committed c) (hknows : P.knows t sp' κ' dd')
    (hothers : ∀ t', t' ≠ t → P.knows t' (mode t').spot (mode t').know dd')
    (hawake : ∀ p, Tid.proc p = t → (s.proc p).state ≠ .sleeping) :
    P.Inv { s.wakeup1 chan with data := dd' }
      (update mode t ⟨(mode t).base, sp', κ'⟩) := by
  have hst : ∀ p, ((s.wakeup1 chan).proc p).state = .sleeping →
      (s.wakeup1 chan).proc p = s.proc p ∧ (s.proc p).state = .sleeping ∧
      (s.proc p).chan ≠ chan := fun p hp => by
    unfold Machine.wakeup1 at hp ⊢
    dsimp only at hp ⊢
    split at hp
    · cases hp
    next hno =>
      rw [if_neg hno]
      exact ⟨rfl, hp, fun hc => hno ⟨hp, hc⟩⟩
  refine h.moved hok (fun t' x d ht hx => ⟨(h.inside t' x d hx).1, hval t' x d ht hx⟩) hself
    (fun p hp hdue' => ?_) (fun t' c ht hc => ?_) (fun c hc => absurd hc (hsp' c)) hothers hknows
    (fun p _ hp => ?_) fun p hpt hp => ?_
  · obtain ⟨h1, h2, h3⟩ := hst p hp
    change P.due dd' ((s.wakeup1 chan).proc p).chan = true at hdue'
    change ∃ t', Spot.owes _ ((s.wakeup1 chan).proc p).chan
    rw [h1] at hdue' ⊢
    exact owes_keep (h.asleep p h2 (hdue _ hdue')) fun ho => absurd (hdebt _ ho) h3
  · obtain ⟨e, -, hcur, hl⟩ := hC.held t (by rw [hlocked]; simp) (by rw [hlocked]; simp)
    have hlock' := (h.committed t' c hc).1
    have : s.cur e = t' := hC.held_eq hl (by rw [hlock']; simp) (by rw [hlock']; simp)
    exact absurd (this.symm.trans hcur) ht
  · obtain ⟨h1, h2, -⟩ := hst p hp
    change P.own ((s.wakeup1 chan).proc p).chan ∨ P.may _ ((s.wakeup1 chan).proc p).chan
    rw [h1]
    exact h.may p h2
  · exact absurd (hst p hp).2.1 (hawake p hpt)

/-- The loop of `wakeup` keeps the process table. -/
lemma inv_scan {m : MonMode X K} {dd' : D} (hJ : (tableOutline n).inv s fun t => (mode t).base)
    (hm : m.base = (mode t).base) :
    (tableOutline n).inv { s.wakeup1 chan with data := dd' }
      fun t' => (update mode t m t').base := by
  rw [base_update, hm, update_eq_self]
  refine Kernel.Inv.wake hJ rfl rfl rfl rfl fun q => ?_
  obtain ⟨ht, -, hp⟩ := wakeup1_proc s chan q
  exact ⟨hp, ht.forkret, ht.state⟩

/-- The change that a note makes of the data. -/
structure Note (P : Monitor D X K) (t : Tid) (dd dd' : D) (x' : X) (κ' : K) : Prop where
  ok : P.ok dd'
  val : P.val dd' = x'
  due : ∀ chan, P.due dd' chan = true → P.due dd chan = true
  knows : P.knows t (.inside x' none) κ' dd'
  others : ∀ t' sp κ, t' ≠ t → (∀ x d, sp ≠ .inside x d) → P.knows t' sp κ dd →
    P.knows t' sp κ dd'

/-- The loop of `wakeup`, by a thread with the lock of the monitor. -/
lemma safe_scan {f : D → D} {ch : Option (Nat × Bool)} (hd : d = none ∨ d = some chan)
    (h : ∀ dd, P.ok dd → P.val dd = x → P.knows t (.inside x d) κ dd →
      P.Note t dd (f dd) x' κ') :
    (scan t chan f).safe (P.outline n cond) t ⟨⟨.locked, ch⟩, .inside x d, κ⟩
      fun _ m => m = ⟨⟨.locked, ch⟩, .inside x' none, κ'⟩ := by
  rintro s mode ⟨⟨hn, hC, hT⟩, hM⟩ hm hg -
  obtain ⟨c, hc, -⟩ := exists_cpu hg
  have hspot : (mode t).spot = .inside x d := by rw [hm]
  have hin := hM.inside t x d hspot
  have hkn := hM.knows t
  rw [hspot, show (mode t).know = κ by rw [hm]] at hkn
  have hN := h s.data hM.ok hin.2 hkn
  have hbase : (mode t).base = ⟨.locked, ch⟩ := by rw [hm]
  have hnone : ∀ t' x d, t' ≠ t → (mode t').spot ≠ .inside x d := fun t' x d ht hx' =>
    ht (exclusive hC (hM.inside t' x d hx').1 hin.1)
  refine ⟨trivial, _, ⟨inv_scan ⟨hn, hC, hT⟩ hbase.symm, ?_⟩, rfl⟩
  rw [← hbase]
  refine hM.scan hC (by rw [hbase]) ?_ hN.ok hN.due
    (fun t' y e ht hy => absurd hy (hnone t' y e ht)) (fun y e hy => ?_) (fun c => nofun) hN.knows
    (fun t' ht => hN.others t' _ _ ht (fun y e => hnone t' y e ht) (hM.knows t')) ?_
  · rw [hspot]
    rintro c (⟨y, hy⟩ | hy)
    · rcases hd with rfl | rfl
      · cases (Spot.inside.inj hy).2
      · exact (Option.some.inj (Spot.inside.inj hy).2).symm
    · cases hy
  · obtain ⟨rfl, -⟩ := Spot.inside.inj hy
    exact ⟨hin.1, hN.val⟩
  · rintro p rfl
    exact not_sleeping hC hc (by rw [hbase]; simp)

/-- The loop of `wakeup`, by a thread that has released the lock of the monitor. -/
lemma safe_scan_owing {f : D → D} {ch : Option (Nat × Bool)}
    (h : ∀ dd, P.ok dd → P.knows t (.owing chan) κ dd → P.ok (f dd) ∧ P.val (f dd) = P.val dd ∧
      (∀ c, P.due (f dd) c = true → P.due dd c = true) ∧ P.knows t .away κ' (f dd) ∧
      ∀ t' sp κ, t' ≠ t → P.knows t' sp κ dd → P.knows t' sp κ (f dd)) :
    (scan t chan f).safe (P.outline n cond) t ⟨⟨.locked, ch⟩, .owing chan, κ⟩
      fun _ m => m = ⟨⟨.locked, ch⟩, .away, κ'⟩ := by
  rintro s mode ⟨⟨hn, hC, hT⟩, hM⟩ hm hg -
  obtain ⟨c, hc, -⟩ := exists_cpu hg
  have hspot : (mode t).spot = .owing chan := by rw [hm]
  have hkn := hM.knows t
  rw [hspot, show (mode t).know = κ by rw [hm]] at hkn
  obtain ⟨h1, h2, h3, h4, h5⟩ := h s.data hM.ok hkn
  have hbase : (mode t).base = ⟨.locked, ch⟩ := by rw [hm]
  refine ⟨trivial, _, ⟨inv_scan ⟨hn, hC, hT⟩ hbase.symm, ?_⟩, rfl⟩
  rw [← hbase]
  refine hM.scan hC (by rw [hbase]) ?_ h1 h3
    (fun t' y e _ hy => h2.trans (hM.inside t' y e hy).2) (fun y e hy => nomatch hy)
    (fun c => nofun) h4 (fun t' ht => h5 t' _ _ ht (hM.knows t')) ?_
  · rw [hspot]
    rintro c (⟨y, hy⟩ | hy)
    · cases hy
    · exact (Spot.owing.inj hy).symm
  · rintro p rfl
    exact not_sleeping hC hc (by rw [hbase]; simp)

/-- `wakeup`, by a thread with the lock of the monitor. -/
lemma safe_wakeupNote {f : D → D} (hlk : P.lk ≠ .ptable) (hd : d = none ∨ d = some chan)
    (h : ∀ dd, P.ok dd → P.val dd = x → P.knows t (.inside x d) κ dd →
      P.Note t dd (f dd) x' κ') :
    (wakeupNote t chan f).safe (P.outline n cond) t (P.within x d κ)
      fun _ m => m = P.within x' none κ' := by
  have hphase : P.phase = .normal := by
    unfold phase
    cases hk : P.lk with
    | ptable => exact absurd hk hlk
    | other k => rfl
  unfold within
  rw [hphase]
  refine safe_bind (safe_still (Kernel.safe_acquire _ none) (still_acquire t) hlk
    fun _ => nofun) ?_
  rintro - m ⟨b, rfl, rfl⟩
  refine safe_then (safe_scan hd h) fun _ => ?_
  refine safe_mono (safe_still (Kernel.safe_release _ (.inl rfl)) (still_release t) hlk
    fun _ => nofun) ?_
  rintro - m ⟨b, rfl, rfl⟩
  rfl

/-- `wakeup`, by a thread that has released the lock of the monitor. -/
lemma safe_wakeupNote_owing {f : D → D}
    (h : ∀ dd, P.ok dd → P.knows t (.owing chan) κ dd → P.ok (f dd) ∧ P.val (f dd) = P.val dd ∧
      (∀ c, P.due (f dd) c = true → P.due dd c = true) ∧ P.knows t .away κ' (f dd) ∧
      ∀ t' sp κ, t' ≠ t → P.knows t' sp κ dd → P.knows t' sp κ (f dd)) :
    (wakeupNote t chan f).safe (P.outline n cond) t ⟨⟨.normal, none⟩, .owing chan, κ⟩
      fun _ m => m = off κ' := by
  refine safe_bind (safe_frame (Kernel.safe_acquire _ none) (acts_frame (frame_acquire ..))
    (.inr ⟨chan, rfl⟩)) ?_
  rintro - m ⟨b, rfl, rfl⟩
  refine safe_then (safe_scan_owing h) fun _ => ?_
  refine safe_mono (safe_frame (Kernel.safe_release _ (.inl rfl)) (acts_frame (frame_release ..))
    (.inl rfl)) ?_
  rintro - m ⟨b, rfl, rfl⟩
  rfl

end Wakeup

/-! ### Sleeping -/

section Sleep

variable {s s' : Machine D} {mode : Tid → MonMode X K} {p k : Nat} {b : Mode} {x : X}
  {κ : K} {n : Nat} {chan : Chan} {cond : Tid → Label → Machine D → Prop}

/-- A process stores that it sleeps, and owes nothing. If it has released the lock of the monitor
before, a thread that has given it a reason to wake up since then owes it that. -/
lemma Inv.fallAsleep (h : P.Inv s mode) (hnot : ∀ c, ¬(mode (.proc p)).spot.owes c)
    (hdue : P.due s.data chan = true → ∃ t', (mode t').spot.owes chan)
    (hmay : P.may (mode (.proc p)).know chan) (b : Mode) :
    P.Inv (s.setProc p fun q => { q with chan := chan, state := .sleeping })
      (update mode (.proc p) ⟨b, .away, (mode (.proc p)).know⟩) := by
  have hne : ∀ q, q ≠ p → (s.setProc p fun q =>
      { q with chan := chan, state := .sleeping }).proc q =
    s.proc q := fun q hq => setProc_ne hq
  refine h.moved h.ok (fun t' x d _ hx => h.inside t' x d hx) (fun _ _ hx => nomatch hx)
    (fun q hq hdue' => ?_) (fun t' c _ hc hdue' => owes_keep ((h.committed t' c hc).2 hdue')
      fun ho => absurd ho (hnot c)) (fun _ hc => nomatch hc) (fun t' _ => h.knows t') ?_
    (fun q hqp hq => ?_) fun q hqp hq => ?_
  · by_cases hqp : q = p
    · subst hqp
      rw [setProc_same] at hdue' ⊢
      exact owes_keep (hdue hdue') fun ho => absurd ho (hnot _)
    · rw [hne q hqp] at hq hdue' ⊢
      exact owes_keep (h.asleep q hq hdue') fun ho => absurd ho (hnot _)
  · refine P.knows_spot _ _ _ _ _ ?_ (h.knows (.proc p))
    rintro c (⟨y, hy⟩ | hy) <;> cases hy
  · have hqp' : q ≠ p := fun e => hqp (by rw [e])
    rw [hne q hqp'] at hq ⊢
    exact h.may q hq
  · obtain rfl := Tid.proc.inj hqp
    rw [setProc_same]
    exact .inr hmay

/-- From the moment when a process has stored that it sleeps to its return from `swtch`. -/
lemma safe_swtch : (sched p).safe (P.outline n cond) (.proc p) ⟨⟨.leaving, none⟩, .away, κ⟩
    fun _ m => m = ⟨⟨.out, none⟩, .away, κ⟩ := by
  refine safe_mono (safe_frame (safe_sched (.inl rfl)) (acts_frame (frame_sched _ p)) (.inl rfl)) ?_
  rintro - m ⟨b, rfl, rfl⟩
  rfl

/-- The action in which a process stores that it sleeps. -/
lemma safe_fallAsleep {sp : Spot X} {ch : Option (Nat × Bool)} (hsp : ∀ c, ¬sp.owes c)
    (hdue : ∀ s mode, P.Inv s mode → (mode (.proc p)).spot = sp → P.due s.data chan = true →
      ∃ t', (mode t').spot.owes chan) (hmay : P.may κ chan) :
    (store (.proc p) .tau fun s => s.setProc p fun q =>
      { q with chan := chan, state := .sleeping }).safe (P.outline n cond) (.proc p)
      ⟨⟨.locked, ch⟩, sp, κ⟩ fun _ m => m = ⟨⟨.leaving, ch⟩, .away, κ⟩ := by
  rintro s mode ⟨hJ, hM⟩ hm hg -
  have hbm : (mode (.proc p)).base = ⟨.locked, ch⟩ := by rw [hm]
  have hbase := safe_leave (n := n) (p := p) (f := fun q =>
    { q with chan := chan, state := .sleeping }) (fun _ => .inr rfl)
    (fun _ => ⟨rfl, rfl, rfl, rfl, rfl⟩) s (fun t => (mode t).base) hJ hbm hg trivial
  obtain ⟨-, m', hJ', rfl⟩ := hbase
  have hspot : (mode (.proc p)).spot = sp := by rw [hm]
  have hknow : (mode (.proc p)).know = κ := by rw [hm]
  refine ⟨trivial, _, ⟨?_, ?_⟩, rfl⟩
  · rw [base_update]
    exact hJ'
  · rw [← hknow]
    exact hM.fallAsleep (by rw [hspot]; exact hsp) (hdue s mode hM hspot)
      (by rw [hknow]; exact hmay) _

/-- A process that holds `ptable.lock` releases the lock of the monitor to sleep. -/
lemma safe_commit (hdue : ∀ dd, P.ok dd → P.val dd = x → P.due dd chan = false) :
    (release (.proc p) (.other k)).safe (P.outline n cond) (.proc p)
      ⟨⟨.locked, none⟩, .inside x none, κ⟩ fun _ m =>
        m = ⟨⟨.locked, none⟩, .committed chan, κ⟩ := by
  rintro s mode ⟨hJ, hM⟩ hm hg -
  by_cases hh : s.holding (.proc p) (.other k) = true
  · simp only [hh, if_true]
    have hspot : (mode (.proc p)).spot = .inside x none := by rw [hm]
    have hknow : (mode (.proc p)).know = κ := by rw [hm]
    have hbase : (mode (.proc p)).base = ⟨.locked, none⟩ := by rw [hm]
    refine ⟨trivial, _, ⟨?_, ?_⟩, rfl⟩
    · rw [base_update]
      dsimp only
      rw [← hbase, update_eq_self]
      exact Kernel.Inv.other_lock hJ rfl rfl rfl rfl (drop_lock_ne (by simp))
    · refine hM.leave hJ.2.1 hspot rfl rfl (by simp) (by simp)
        (fun c hc => ⟨rfl, ?_⟩) ?_ ?_
      · obtain rfl := Spot.committed.inj hc
        exact hdue _ hM.ok (hM.inside _ _ _ hspot).2
      · rw [← hknow]
        refine P.knows_spot _ _ _ _ _ ?_ (hM.knows (.proc p))
        rintro c (⟨y, hy⟩ | hy) <;> cases hy
      · rintro q hq
        obtain rfl := Tid.proc.inj hq
        obtain ⟨c, hc, -⟩ := exists_cpu hg
        exact not_sleeping hJ.2.1 hc (by rw [hbase]; simp)
  · simp only [hh]
    refine ⟨trivial, mode (.proc p), ?_, trivial⟩
    rw [update_eq_self]
    exact ⟨hJ, hM⟩

/-- A process that sleeps with `ptable.lock` as its lock has it again after `swtch`. -/
lemma safe_resume (hlk : P.lk = .ptable) :
    (store (.proc p) .tau fun s => s.setProc p fun q => { q with chan := .null }).safe
      (P.outline n cond) (.proc p) ⟨⟨.out, none⟩, .away, κ⟩ fun _ => P.Finds (.proc p) κ := by
  rintro s mode ⟨hJ, hM⟩ hm hg -
  have hbm : (mode (.proc p)).base = ⟨.out, none⟩ := by rw [hm]
  have hbase := safe_tidyUp (n := n) (p := p) s (fun t => (mode t).base) hJ hbm hg trivial
  obtain ⟨-, m', hJ', rfl⟩ := hbase
  obtain ⟨c, hc, -⟩ := exists_cpu hg
  have hspot : (mode (.proc p)).spot = .away := by rw [hm]
  have hknow : (mode (.proc p)).know = κ := by rw [hm]
  have hrun := hJ.2.1.running hc (by rw [hm]; simp)
  have hkn := hM.knows (.proc p)
  rw [hknow] at hkn
  have hin : P.knows (.proc p) (.inside (P.val s.data) none) κ s.data := by
    refine P.knows_spot _ _ _ _ _ ?_ hkn
    rintro c (⟨y, hy⟩ | hy) <;> cases hy
  have hnot : ∀ c, ¬(mode (.proc p)).spot.owes c := by
    rw [hspot]
    rintro c (⟨y, hy⟩ | hy) <;> cases hy
  -- the lock came with the CPU, so no other thread is in the monitor
  have hnone : ∀ t' x d, (mode t').spot ≠ .inside x d := fun t' x d hx => by
    have hh := (hM.inside t' x d hx).1
    unfold Holds at hh
    rw [hlk] at hh
    have hl := hJ.2.1.lock_of hc (by rw [hm]; simp)
    have hcur := hJ.2.1.held_eq hl (t := t') (by rw [hh]; simp) (by rw [hh]; simp)
    rw [(cpu_some hc).2] at hcur
    rw [← hcur, hspot] at hx
    cases hx
  have hstill : Still s (s.setProc p fun q => { q with chan := .null }) :=
    .setProc fun h => by rw [hrun] at h; cases h
  refine ⟨trivial, P.within (P.val s.data) none κ, ⟨?_, ?_⟩, s.data, rfl, hM.ok, hin⟩
  · rw [base_update]
    unfold within phase
    rw [hlk]
    exact hJ'
  · refine hM.moved hM.ok (fun t' x d _ hx => absurd hx (hnone t' x d)) (fun y e hy => ?_)
      (fun q hq hdue => ?_) (fun t' c _ hc hdue => owes_keep ((hM.committed t' c hc).2 hdue)
        fun ho => absurd ho (hnot c)) (fun c hc => nomatch hc) (fun t' _ => hM.knows t') hin
      (fun q _ hq => ?_) fun q hqp hq => ?_
    · obtain ⟨rfl, -⟩ := Spot.inside.inj hy
      refine ⟨?_, rfl⟩
      unfold Holds
      rw [hlk]
      simp [within, phase, hlk]
    · obtain ⟨h1, h2⟩ := hstill.asleep q hq
      change P.due s.data _ = true at hdue
      rw [h2] at hdue ⊢
      exact owes_keep (hM.asleep q h1 hdue) fun ho => absurd ho (hnot _)
    · obtain ⟨h1, h2⟩ := hstill.asleep q hq
      rw [h2]
      exact hM.may q h1
    · obtain rfl := Tid.proc.inj hqp
      have := (hstill.asleep q hq).1
      rw [hrun] at this
      cases this

/-- `sleep`, by a process in the monitor that finds no reason to be awake. -/
lemma safe_sleep (hdue : ∀ dd, P.ok dd → P.val dd = x → P.due dd chan = false)
    (hmay : P.may κ chan) (delay : Nat) :
    (sleep p chan P.lk delay).safe (P.outline n cond) (.proc p) (P.within x none κ)
      fun _ => P.Finds (.proc p) κ := by
  have hinside : ∀ (s : Machine D) (mode : Tid → MonMode X K), P.Inv s mode →
      (mode (.proc p)).spot = .inside x none → P.due s.data chan = true →
      ∃ t', (mode t').spot.owes chan := fun s mode hM hx hd => by
    rw [hdue _ hM.ok (hM.inside _ _ _ hx).2] at hd
    cases hd
  cases hlk : P.lk with
  | ptable =>
    unfold within phase
    rw [hlk]
    refine safe_bind (safe_fallAsleep ?_ hinside hmay) ?_
    · rintro c (⟨y, hy⟩ | hy) <;> cases hy
    rintro - m rfl
    refine safe_then safe_swtch fun _ => ?_
    exact safe_bind (safe_resume hlk) fun _ _ h => h
  | other k =>
    have hne : P.lk ≠ .ptable := by simp [hlk]
    have hown := P.own_null
    unfold within phase
    rw [hlk]
    refine safe_bind (safe_still (Kernel.safe_acquire _ none) (still_acquire _) hne
      fun _ => nofun) ?_
    rintro - m ⟨b, rfl, rfl⟩
    refine safe_then (safe_commit hdue) fun _ => ?_
    refine safe_bind (safe_fallAsleep ?_ (fun s mode hM hc => (hM.committed _ _ hc).2) hmay) ?_
    · rintro c (⟨y, hy⟩ | hy) <;> cases hy
    rintro - m rfl
    refine safe_then safe_swtch fun _ => ?_
    refine safe_bind (safe_frame safe_tidyUp (acts_frame (frame_own hown fun _ => rfl))
      (.inl rfl)) ?_
    rintro - m ⟨b, rfl, rfl⟩
    refine safe_bind (safe_frame (Kernel.safe_release _ (.inl rfl)) (acts_frame (frame_release ..))
      (.inl rfl)) ?_
    rintro - m ⟨b, rfl, rfl⟩
    refine safe_bind (safe_frame (safe_interrupts delay) (acts_frame (frame_interrupts _ p delay))
      (.inl rfl)) ?_
    rintro - m ⟨b, rfl, rfl⟩
    rw [← hlk]
    exact safe_acquire

end Sleep

/-- Calls of other code keep the invariant of the monitor. -/
lemma safe_ownCalls {n : Nat} {cond : Tid → Label → Machine D → Prop} {t : Tid} {q : Code D Unit}
    {κ : K} (h : OwnCalls P.own n t q) :
    q.safe (P.outline n cond) t (off κ) fun _ m => m = off κ := by
  refine safe_mono (safe_frame (safe_calls t q h.calls) (h.frame P.own_null) (.inl rfl)) ?_
  rintro - m ⟨b, rfl, rfl⟩
  rfl

end Monitor

end Xv6.Kernel
