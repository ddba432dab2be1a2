import Xv6.Fs.Cache
import Mathlib.Logic.Relation

/-!
# The inode cache under interleaving

Any number of processes run the critical sections of `iget`, `idup`, `ilock`, `iunlock` and `iput`
in any order. Between the two critical sections of an `iput` that frees an inode, the others go on.
-/

namespace Xv6

open Lib Prog List

/-! ### The critical sections of `ilock` and `iput` -/

/-- `ilock` until it has set `I_BUSY`. -/
def ilockWait (k : Nat) : K Unit := do
  let ref ← read fun s => (s.inode k).ref
  if ref < 1 then .panic .ilock
  else
    .act .tau (fun s => !(s.inode k).busy)
      (fun s => s.setInode k fun ip => { ip with busy := true }) fun _ => .ret ()

/-- The rest of `ilock`: read the inode from disk if necessary. -/
def ilockLoad (k : Nat) : K Unit := do
  let ip ← read fun s => s.inode k
  K.when (ip.valid = false) do
    let bp ← bread ip.dev (IBLOCK ip.inum)
    let d := getDinode bp (ip.inum % IPB)
    write fun s => s.setInode k fun ip => ip.load d
    K.when (d.type = 0) (.panic .ilockNoType)

/-- The first critical section of `iput`; the result says that the inode is to be freed. -/
def iputTest (k : Nat) : K Bool :=
  .act (.iput k) (fun _ => true)
    (fun s => s.setInode k fun ip =>
      if ip.lastUnlinked then { ip with busy := true } else { ip with ref := ip.ref - 1 })
    fun s =>
      if (s.inode k).lastUnlinked && (s.inode k).busy then .panic .iputBusy
      else .ret (s.inode k).lastUnlinked

/-- The second critical section of an `iput` that has freed the inode. -/
def iputEnd (k : Nat) : K Unit :=
  write fun s => s.setInode k fun ip => { ip with busy := false, valid := false, ref := ip.ref - 1 }

lemma ilock_eq (k : Nat) : ilock k = ilockWait k >>= fun _ => ilockLoad k := by
  have hif : ∀ (c : Prop) [Decidable c] (p q : K Unit) (g : Unit → K Unit),
      (if c then p else q) >>= g = if c then p >>= g else q >>= g := by
    intro c _ p q g
    split_ifs <;> rfl
  unfold ilockWait ilock
  rw [bind_assoc]
  refine congrArg _ (funext fun ref => ?_)
  rw [hif]
  rfl

lemma iput_eq (k : Nat) : iput k = (do
    let last ← iputTest k
    K.when (last = true) do
      itrunc k
      write fun s => s.setInode k fun ip => { ip with type := 0 }
      iupdate k
      iputEnd k) := rfl

/-! ### Processes that share the cache -/

namespace Icache

/-- What happens to an inode: `ilock` reads it from disk, or `iput` starts to truncate it. -/
inductive Event
  | load (dev inum : Nat)
  | trunc (dev inum : Nat)

/-- The last event of the inode is that it was read from disk. -/
def fresh (dev inum : Nat) : List Event → Bool
  | [] => false
  | .load d i :: es => if d = dev ∧ i = inum then true else fresh dev inum es
  | .trunc d i :: es => if d = dev ∧ i = inum then false else fresh dev inum es

/-- Each truncation of an inode comes after a read of it that no other truncation has used. -/
def TruncOnce : List Event → Prop
  | [] => True
  | .load _ _ :: es => TruncOnce es
  | .trunc d i :: es => fresh d i es = true ∧ TruncOnce es

/-- The cache, and for each entry the processes that have a reference to it (once for each
reference), that have locked it, and that are between the two critical sections of `iput`. -/
structure Users where
  state : State
  refs : Nat → List Nat
  locks : Nat → List Nat
  freeing : Nat → List Nat
  events : List Event

/-- Process `p` is not in the middle of an `iput`. -/
def Users.Ready (c : Users) (p : Nat) : Prop := ∀ k, p ∉ c.freeing k

/-- One step of process `p`. It puts and locks only what it has a reference to, it unlocks what it
has locked, and it keeps a reference to what it has locked. The holder of an entry changes the copy
of the inode. -/
inductive Step : Users → Users → Prop
  | iget {c : Users} {p dev inum k : Nat} {s : State} (hp : c.Ready p)
      (h : (Xv6.iget dev inum).run c.state = .ok k s) :
      Step c { c with state := s, refs := upd c.refs k (p :: c.refs k) }
  | idup {c : Users} {p k : Nat} {s : State} (hp : c.Ready p) (hk : p ∈ c.refs k)
      (h : (Xv6.idup k).run c.state = .ok k s) :
      Step c { c with state := s, refs := upd c.refs k (p :: c.refs k) }
  | ilock {c : Users} {p k : Nat} {s : State} (hp : c.Ready p) (hk : p ∈ c.refs k)
      (h : (ilockWait k).run c.state = .ok () s) :
      Step c { c with state := s, locks := upd c.locks k (p :: c.locks k) }
  | load {c : Users} {p k : Nat} {d : Dinode} (hp : c.Ready p) (hk : p ∈ c.locks k)
      (hv : (c.state.inode k).valid = false) (hd : d.type ≠ 0) :
      Step c { c with
        state := c.state.setInode k fun ip => ip.load d
        events := .load (c.state.inode k).dev (c.state.inode k).inum :: c.events }
  | change {c : Users} {p k : Nat} (hk : p ∈ c.locks k ∨ p ∈ c.freeing k)
      (type major minor nlink : BitVec 16) (size : Nat) (addrs : Nat → Nat) :
      Step c { c with state := c.state.setInode k fun ip =>
        { ip with type := type, major := major, minor := minor, nlink := nlink, size := size,
                  addrs := addrs } }
  | iunlock {c : Users} {p k : Nat} {s : State} (hp : c.Ready p) (hk : p ∈ c.locks k)
      (h : (Xv6.iunlock k).run c.state = .ok () s) :
      Step c { c with state := s, locks := upd c.locks k ((c.locks k).erase p) }
  | iput {c : Users} {p k : Nat} {s : State} (hp : c.Ready p) (hk : p ∈ c.refs k)
      (hl : p ∈ c.locks k → p ∈ (c.refs k).erase p)
      (h : (iputTest k).run c.state = .ok false s) :
      Step c { c with state := s, refs := upd c.refs k ((c.refs k).erase p) }
  | free {c : Users} {p k : Nat} {s : State} (hp : c.Ready p) (hk : p ∈ c.refs k)
      (h : (iputTest k).run c.state = .ok true s) :
      Step c { c with
        state := s
        freeing := upd c.freeing k (p :: c.freeing k)
        events := .trunc (c.state.inode k).dev (c.state.inode k).inum :: c.events }
  | freed {c : Users} {p k : Nat} {s : State} (hk : p ∈ c.freeing k)
      (h : (iputEnd k).run c.state = .ok () s) :
      Step c { c with
        state := s
        refs := upd c.refs k ((c.refs k).erase p)
        freeing := upd c.freeing k ((c.freeing k).erase p) }

/-- The states that processes reach from `c0`. -/
abbrev Run (c0 c : Users) : Prop := Relation.ReflTransGen Step c0 c

/-- The cache before its first use: no entry has a reference. -/
def start (s : State) : Users :=
  ⟨{ s with inode := fun k => { s.inode k with ref := 0, busy := false } },
    fun _ => [], fun _ => [], fun _ => [], []⟩

/-- The cache is safe: one entry for each inode, one holder for each entry, entries that are
recycled only without references, and no inode truncated twice. -/
structure Safe (c : Users) : Prop where
  unique : ∀ j < NINODE, ∀ k < NINODE, 0 < (c.state.inode j).ref → 0 < (c.state.inode k).ref →
    (c.state.inode j).dev = (c.state.inode k).dev →
    (c.state.inode j).inum = (c.state.inode k).inum → j = k
  holder : ∀ k < NINODE, ((c.state.inode k).busy = true → ∃ p, c.locks k ++ c.freeing k = [p]) ∧
    ((c.state.inode k).busy = false → c.locks k ++ c.freeing k = [])
  recycled : ∀ c', Step c c' → ∀ k < NINODE,
    (c'.state.inode k).dev ≠ (c.state.inode k).dev ∨
      (c'.state.inode k).inum ≠ (c.state.inode k).inum → c.refs k = []
  lastRef : ∀ k < NINODE, ∀ p c', Step c c' → p ∈ c'.freeing k → p ∉ c.freeing k → c.refs k = [p]
  truncOnce : TruncOnce c.events

/-! ### What one step does -/

section Cases

variable {s s' : State} {k dev inum : Nat}

lemma iget_cases (h : (Xv6.iget dev inum).run s = .ok k s') : k < NINODE ∧
    ((0 < (s.inode k).ref ∧ (s.inode k).dev = dev ∧ (s.inode k).inum = inum ∧
      s' = s.setInode k fun ip => { ip with ref := ip.ref + 1 }) ∨
    ((s.inode k).ref = 0 ∧ (∀ j < NINODE, 0 < (s.inode j).ref → (s.inode j).dev = dev →
      (s.inode j).inum ≠ inum) ∧ s' = s.setInode k fun ip => ip.recycle dev inum)) := by
  refine wp_ok (E := fun _ _ => True) (Q := fun k s' => k < NINODE ∧
    ((0 < (s.inode k).ref ∧ (s.inode k).dev = dev ∧ (s.inode k).inum = inum ∧
      s' = s.setInode k fun ip => { ip with ref := ip.ref + 1 }) ∨
    ((s.inode k).ref = 0 ∧ (∀ j < NINODE, 0 < (s.inode j).ref → (s.inode j).dev = dev →
      (s.inode j).inum ≠ inum) ∧ s' = s.setInode k fun ip => ip.recycle dev inum))) ?_ h
  refine wp_iget (.inr fun _ _ => trivial) ?_ ?_
  · exact fun k hk hr hd hi => ⟨hk, .inl ⟨hr, hd, hi, rfl⟩⟩
  · exact fun k hk hr hno => ⟨hk, .inr ⟨hr, hno, rfl⟩⟩

lemma ilockWait_cases (h : (ilockWait k).run s = .ok () s') :
    (s.inode k).busy = false ∧ s' = s.setInode k fun ip => { ip with busy := true } := by
  unfold ilockWait at h
  rw [run_bind] at h
  by_cases hr : (s.inode k).ref < 1
  · simp [read, Res.andThen, hr] at h
  · cases hb : (s.inode k).busy with
    | true => simp [read, Res.andThen, hr, run_act, hb] at h
    | false =>
      simp only [read, run_get, Res.andThen, if_neg hr, run_act, hb, Bool.not_false, cond_true,
        run_ret, Res.ok.injEq, true_and] at h
      exact ⟨rfl, h.symm⟩

lemma iunlock_cases (h : (Xv6.iunlock k).run s = .ok () s') :
    s' = s.setInode k fun ip => { ip with busy := false } := by
  unfold Xv6.iunlock at h
  rw [run_bind] at h
  by_cases hb : (!(s.inode k).busy || decide ((s.inode k).ref < 1)) = true
  · simp only [read, run_get, Res.andThen, if_pos hb, run_panic] at h
    cases h
  · simp only [read, run_get, Res.andThen, if_neg hb, write, run_modify, Res.ok.injEq,
      true_and] at h
    exact h.symm

/-- `iput` drops a reference. -/
lemma iputTest_false (h : (iputTest k).run s = .ok false s') :
    s' = s.setInode k fun ip => { ip with ref := ip.ref - 1 } := by
  unfold iputTest at h
  rw [run_act] at h
  cases hl : (s.inode k).lastUnlinked with
  | true => cases hb : (s.inode k).busy <;> simp [hl, hb] at h
  | false =>
    simp only [hl, Bool.false_and, Bool.false_eq_true, if_false, cond_true, run_ret,
      Res.ok.injEq, true_and] at h
    rw [← h]
    simp [State.setInode, hl]

/-- `iput` starts to free the inode. -/
lemma iputTest_true (h : (iputTest k).run s = .ok true s') :
    (s.inode k).ref = 1 ∧ (s.inode k).valid = true ∧ (s.inode k).busy = false ∧
      s' = s.setInode k fun ip => { ip with busy := true } := by
  unfold iputTest at h
  rw [run_act] at h
  cases hl : (s.inode k).lastUnlinked with
  | false => simp [hl] at h
  | true =>
    cases hb : (s.inode k).busy with
    | true => simp [hl, hb] at h
    | false =>
      obtain ⟨h1, h2, -⟩ := of_decide_eq_true hl
      simp only [hl, hb, Bool.and_false, Bool.false_eq_true, if_false, cond_true, run_ret,
        Res.ok.injEq, true_and] at h
      refine ⟨h1, h2, rfl, ?_⟩
      rw [← h]
      simp [State.setInode, hl]

end Cases

/-! ### The invariant -/

/-- A cache entry, the processes that use it, and the events so far. -/
structure Entry where
  ip : Inode
  refs : List Nat
  locks : List Nat
  freeing : List Nat
  events : List Event

abbrev Users.entry (c : Users) (k : Nat) : Entry :=
  ⟨c.state.inode k, c.refs k, c.locks k, c.freeing k, c.events⟩

/-- The users once entry `k` is `e`. -/
@[simp] def Users.put (c : Users) (k : Nat) (e : Entry) : Users :=
  ⟨c.state.setInode k fun _ => e.ip, upd c.refs k e.refs, upd c.locks k e.locks,
    upd c.freeing k e.freeing, e.events⟩

/-- What holds of one entry: the processes with a reference to it, with a lock on it and those that
free it agree with the entry, and it is not valid after a truncation. -/
structure EntryOk (e : Entry) : Prop where
  counted : e.ip.ref = e.refs.length
  busy : e.ip.busy = true ↔ e.locks ++ e.freeing ≠ []
  single : (e.locks ++ e.freeing).length ≤ 1
  owned : ∀ p ∈ e.locks ++ e.freeing, p ∈ e.refs
  fresh : 0 < e.ip.ref → e.ip.valid = true → e.freeing = [] →
    fresh e.ip.dev e.ip.inum e.events = true

/-- What every step keeps. -/
structure Inv (c : Users) : Prop where
  entry : ∀ k < NINODE, EntryOk (c.entry k)
  slots : ∀ k, NINODE ≤ k → c.refs k = [] ∧ c.locks k = [] ∧ c.freeing k = []
  unique : ∀ j < NINODE, ∀ k < NINODE, 0 < (c.state.inode j).ref → 0 < (c.state.inode k).ref →
    (c.state.inode j).dev = (c.state.inode k).dev →
    (c.state.inode j).inum = (c.state.inode k).inum → j = k
  truncOnce : TruncOnce c.events

variable {c c' : Users} {e : Entry} {p k dev inum : Nat}

lemma start_inv (s : State) : Inv (start s) where
  entry := fun k _ => ⟨rfl, by simp [start], by simp [start], by simp [start], by simp [start]⟩
  slots := fun k _ => ⟨rfl, rfl, rfl⟩
  unique := fun j _ k _ h => absurd h (lt_irrefl _)
  truncOnce := trivial

lemma Inv.ref_pos (h : Inv c) (hp : p ∈ c.refs k) : k < NINODE ∧ 0 < (c.state.inode k).ref := by
  have hk : k < NINODE := by
    by_contra hk
    rw [(h.slots k (Nat.le_of_not_lt hk)).1] at hp
    exact not_mem_nil hp
  refine ⟨hk, ?_⟩
  rw [(h.entry k hk).counted]
  exact_mod_cast length_pos_of_mem hp

/-- A holder of an entry is its only one, and has a reference to it. -/
lemma Inv.owner (h : Inv c) (hp : p ∈ c.locks k ++ c.freeing k) :
    k < NINODE ∧ p ∈ c.refs k ∧ c.locks k ++ c.freeing k = [p] := by
  have hk : k < NINODE := by
    by_contra hk
    obtain ⟨-, h1, h2⟩ := h.slots k (Nat.le_of_not_lt hk)
    rw [h1, h2] at hp
    exact not_mem_nil hp
  refine ⟨hk, (h.entry k hk).owned p hp, ?_⟩
  obtain ⟨q, hq⟩ := length_eq_one_iff.mp
    (Nat.le_antisymm (h.entry k hk).single (length_pos_of_mem hp))
  rw [hq] at hp ⊢
  rw [mem_singleton.mp hp]

lemma Inv.lock (h : Inv c) (hp : p ∈ c.locks k) : c.locks k = [p] ∧ c.freeing k = [] := by
  obtain ⟨-, -, he⟩ := h.owner (mem_append_left _ hp)
  have hlen := congrArg List.length he
  rw [length_append, length_singleton] at hlen
  have hpos := length_pos_of_mem hp
  have hf : c.freeing k = [] := length_eq_zero_iff.mp (by omega)
  rw [hf, append_nil] at he
  exact ⟨he, hf⟩

lemma Inv.freed (h : Inv c) (hp : p ∈ c.freeing k) : c.locks k = [] ∧ c.freeing k = [p] := by
  obtain ⟨-, -, he⟩ := h.owner (mem_append_right _ hp)
  have hlen := congrArg List.length he
  rw [length_append, length_singleton] at hlen
  have hpos := length_pos_of_mem hp
  have hl : c.locks k = [] := length_eq_zero_iff.mp (by omega)
  rw [hl, nil_append] at he
  exact ⟨hl, he⟩

/-- An entry that is not busy has no holder. -/
lemma Inv.not_busy (h : Inv c) (hk : k < NINODE) (hb : (c.state.inode k).busy = false) :
    c.locks k = [] ∧ c.freeing k = [] := by
  have : ¬ (c.locks k ++ c.freeing k ≠ []) := fun hne => by
    rw [(h.entry k hk).busy.mpr hne] at hb
    cases hb
  exact append_eq_nil_iff.mp (not_not.mp this)

/-- An entry without references has no holder. -/
lemma Inv.unused (h : Inv c) (hk : k < NINODE) (hr : (c.state.inode k).ref = 0) :
    c.refs k = [] ∧ c.locks k = [] ∧ c.freeing k = [] := by
  have he := h.entry k hk
  have hrefs : c.refs k = [] := by
    have : (c.state.inode k).ref = (c.refs k).length := he.counted
    rw [hr] at this
    exact length_eq_zero_iff.mp (by omega)
  have hnone : c.locks k ++ c.freeing k = [] := by
    rw [eq_nil_iff_forall_not_mem]
    intro q hq
    have : q ∈ c.refs k := he.owned q hq
    rw [hrefs] at this
    exact not_mem_nil this
  exact ⟨hrefs, append_eq_nil_iff.mp hnone⟩

/-! ### What a step does to one entry -/

/-- What a step of process `p` makes of entry `k`. -/
inductive Change (c : Users) (k p : Nat) : Entry → Prop
  | take (hk : k < NINODE) (hpos : 0 < (c.state.inode k).ref) :
      Change c k p { c.entry k with ip.ref := (c.state.inode k).ref + 1, refs := p :: c.refs k }
  | recycle (dev inum : Nat) (hk : k < NINODE) (hzero : (c.state.inode k).ref = 0)
      (hno : ∀ j < NINODE, 0 < (c.state.inode j).ref → (c.state.inode j).dev = dev →
        (c.state.inode j).inum ≠ inum) :
      Change c k p { c.entry k with
        ip := (c.state.inode k).recycle dev inum, refs := p :: c.refs k }
  | lock (hm : p ∈ c.refs k) (hb : (c.state.inode k).busy = false) :
      Change c k p { c.entry k with ip.busy := true, locks := p :: c.locks k }
  | load (hm : p ∈ c.locks k) (d : Dinode) :
      Change c k p { c.entry k with
        ip := (c.state.inode k).load d
        events := .load (c.state.inode k).dev (c.state.inode k).inum :: c.events }
  | edit (hm : p ∈ c.locks k ++ c.freeing k) (type major minor nlink : BitVec 16) (size : Nat)
      (addrs : Nat → Nat) :
      Change c k p { c.entry k with
        ip := { c.state.inode k with type, major, minor, nlink, size, addrs } }
  | unlock (hm : p ∈ c.locks k) :
      Change c k p { c.entry k with ip.busy := false, locks := (c.locks k).erase p }
  | drop (hm : p ∈ c.refs k) (hf : p ∉ c.freeing k)
      (hl : p ∈ c.locks k → p ∈ (c.refs k).erase p) :
      Change c k p { c.entry k with
        ip.ref := (c.state.inode k).ref - 1, refs := (c.refs k).erase p }
  | free (hm : p ∈ c.refs k) (hone : (c.state.inode k).ref = 1)
      (hv : (c.state.inode k).valid = true) (hb : (c.state.inode k).busy = false) :
      Change c k p { c.entry k with
        ip.busy := true
        freeing := p :: c.freeing k
        events := .trunc (c.state.inode k).dev (c.state.inode k).inum :: c.events }
  | freed (hm : p ∈ c.freeing k) :
      Change c k p { c.entry k with
        ip.busy := false, ip.valid := false, ip.ref := (c.state.inode k).ref - 1
        refs := (c.refs k).erase p, freeing := (c.freeing k).erase p }

/-- A step changes one entry. -/
lemma Step.entry (h : Inv c) (hs : Step c c') : ∃ k p e, Change c k p e ∧ c' = c.put k e := by
  cases hs with
  | @iget p _ _ _ _ hp hr =>
    obtain ⟨hk, ⟨hpos, -, -, rfl⟩ | ⟨hzero, hno, rfl⟩⟩ := iget_cases hr
    · exact ⟨_, p, _, .take hk hpos, by simp [State.setInode]⟩
    · exact ⟨_, p, _, .recycle _ _ hk hzero hno, by simp [State.setInode]⟩
  | @idup p _ _ hp hm hr =>
    simp only [Xv6.idup, run_bind, write, run_modify, Res.andThen, run_pure, Res.ok.injEq,
      true_and] at hr
    subst hr
    obtain ⟨hk, hpos⟩ := h.ref_pos hm
    exact ⟨_, p, _, .take hk hpos, by simp [State.setInode]⟩
  | ilock hp hm hr =>
    obtain ⟨hb, rfl⟩ := ilockWait_cases hr
    exact ⟨_, _, _, .lock hm hb, by simp [State.setInode]⟩
  | @load p k d hp hm hv hd => exact ⟨_, _, _, .load hm d, by simp [State.setInode]⟩
  | change hm type major minor nlink size addrs =>
    exact ⟨_, _, _, .edit (mem_append.mpr hm) type major minor nlink size addrs,
      by simp [State.setInode]⟩
  | iunlock hp hm hr =>
    obtain rfl := iunlock_cases hr
    exact ⟨_, _, _, .unlock hm, by simp [State.setInode]⟩
  | iput hp hm hl hr =>
    obtain rfl := iputTest_false hr
    exact ⟨_, _, _, .drop hm (hp _) hl, by simp [State.setInode]⟩
  | free hp hm hr =>
    obtain ⟨hone, hv, hb, rfl⟩ := iputTest_true hr
    exact ⟨_, _, _, .free hm hone hv hb, by simp [State.setInode]⟩
  | freed hm hr =>
    simp only [iputEnd, write, run_modify, Res.ok.injEq, true_and] at hr
    subst hr
    exact ⟨_, _, _, .freed hm, by simp [State.setInode]⟩

/-- The events of the inode of entry `ip`. -/
def Event.Of (ip : Inode) (e : Event) : Prop := e = .load ip.dev ip.inum ∨ e = .trunc ip.dev ip.inum

lemma fresh_cons_ne {ip : Inode} {e : Event} {es : List Event} (he : e.Of ip)
    (h : ¬ (ip.dev = dev ∧ ip.inum = inum)) : fresh dev inum (e :: es) = fresh dev inum es := by
  rcases he with rfl | rfl <;> exact if_neg h

/-- An entry is given to an inode that is in no other, when it has no references, or it is in use
and stays with its inode. -/
lemma Change.identity (h : Inv c) (hc : Change c k p e) : k < NINODE ∧
    ((c.state.inode k).ref = 0 ∧ e.events = c.events ∧ (∀ j < NINODE, 0 < (c.state.inode j).ref →
      ¬ ((c.state.inode j).dev = e.ip.dev ∧ (c.state.inode j).inum = e.ip.inum)) ∨
    0 < (c.state.inode k).ref ∧ e.ip.dev = (c.state.inode k).dev ∧
      e.ip.inum = (c.state.inode k).inum ∧
      (e.events = c.events ∨ ∃ ev, ev.Of (c.state.inode k) ∧ e.events = ev :: c.events)) := by
  have held : p ∈ c.locks k ++ c.freeing k → k < NINODE ∧ 0 < (c.state.inode k).ref :=
    fun hm => h.ref_pos (h.owner hm).2.1
  cases hc with
  | take hk hpos => exact ⟨hk, .inr ⟨hpos, rfl, rfl, .inl rfl⟩⟩
  | recycle dev inum hk hzero hno =>
    exact ⟨hk, .inl ⟨hzero, rfl, fun j hj hr he => hno j hj hr he.1 he.2⟩⟩
  | lock hm | drop hm =>
    exact (h.ref_pos hm).imp_right fun hpos => .inr ⟨hpos, rfl, rfl, .inl rfl⟩
  | load hm =>
    exact (held (mem_append_left _ hm)).imp_right fun hpos =>
      .inr ⟨hpos, rfl, rfl, .inr ⟨_, .inl rfl, rfl⟩⟩
  | edit hm => exact (held hm).imp_right fun hpos => .inr ⟨hpos, rfl, rfl, .inl rfl⟩
  | unlock hm =>
    exact (held (mem_append_left _ hm)).imp_right fun hpos => .inr ⟨hpos, rfl, rfl, .inl rfl⟩
  | free hm =>
    exact (h.ref_pos hm).imp_right fun hpos => .inr ⟨hpos, rfl, rfl, .inr ⟨_, .inr rfl, rfl⟩⟩
  | freed hm =>
    exact (held (mem_append_right _ hm)).imp_right fun hpos => .inr ⟨hpos, rfl, rfl, .inl rfl⟩

/-- The reference that a process gives up is no longer counted. -/
lemma Inv.count_erase (h : Inv c) (hm : p ∈ c.refs k) :
    (c.state.inode k).ref - 1 = ((c.refs k).erase p).length := by
  have hcount : (c.state.inode k).ref = (c.refs k).length := (h.entry k (h.ref_pos hm).1).counted
  rw [hcount, length_erase_of_mem hm]
  have := length_pos_of_mem hm
  omega

lemma Change.entryOk (h : Inv c) (hc : Change c k p e) : EntryOk e := by
  obtain ⟨hk, -⟩ := hc.identity h
  have he := h.entry k hk
  cases hc with
  | take hk hpos =>
    exact ⟨by simpa using he.counted, he.busy, he.single,
      fun q hq => mem_cons_of_mem _ (he.owned q hq), fun _ => he.fresh hpos⟩
  | recycle dev inum hk hzero hno =>
    obtain ⟨hrefs, hl, hf⟩ := h.unused hk hzero
    exact ⟨by simp [hrefs]; rfl, by simp [Inode.recycle, hl, hf], by simp [hl, hf],
      by simp [hl, hf], by simp [Inode.recycle]⟩
  | lock hm hb =>
    obtain ⟨hl, hf⟩ := h.not_busy hk hb
    exact ⟨he.counted, by simp, by simp [hl, hf], by simpa [hl, hf] using hm, he.fresh⟩
  | load hm d =>
    exact ⟨he.counted, he.busy, he.single, he.owned, fun _ _ _ => if_pos ⟨rfl, rfl⟩⟩
  | edit hm => exact ⟨he.counted, he.busy, he.single, he.owned, he.fresh⟩
  | unlock hm =>
    obtain ⟨hl, hf⟩ := h.lock hm
    exact ⟨he.counted, by simp [hl, hf], by simp [hl, hf], by simp [hl, hf], he.fresh⟩
  | drop hm hp hl =>
    refine ⟨h.count_erase hm, he.busy, he.single, fun q hq => ?_,
      fun _ => he.fresh (h.ref_pos hm).2⟩
    by_cases hqp : q = p
    · subst hqp
      exact hl ((mem_append.mp hq).resolve_right hp)
    · exact (mem_erase_of_ne hqp).mpr (he.owned q hq)
  | free hm hone hv hb =>
    obtain ⟨hl, hf⟩ := h.not_busy hk hb
    exact ⟨he.counted, by simp, by simp [hl, hf], by simpa [hl, hf] using hm, by simp⟩
  | freed hm =>
    obtain ⟨-, hr, -⟩ := h.owner (mem_append_right _ hm)
    obtain ⟨hl, hf⟩ := h.freed hm
    exact ⟨h.count_erase hr, by simp [hl, hf], by simp [hl, hf], by simp [hl, hf], by simp⟩

/-- Only an inode that was read from disk since its last truncation is truncated. -/
lemma Change.truncOnce (h : Inv c) (hc : Change c k p e) : TruncOnce e.events := by
  cases hc with
  | free hm hone hv hb =>
    obtain ⟨hk, hpos⟩ := h.ref_pos hm
    exact ⟨(h.entry k hk).fresh hpos hv (h.not_busy hk hb).2, h.truncOnce⟩
  | _ => exact h.truncOnce

/-- A step keeps the invariant: what it does to its entry, and the others do not see it. -/
lemma Inv.step (h : Inv c) (hs : Step c c') : Inv c' := by
  obtain ⟨k, p, e, hc, rfl⟩ := hs.entry h
  obtain ⟨hk, hid⟩ := hc.identity h
  have hsame : (c.state.setInode k fun _ => e.ip).inode k = e.ip := by simp
  have hne : ∀ j, j ≠ k → (c.state.setInode k fun _ => e.ip).inode j = c.state.inode j :=
    fun j hj =>
    State.setInode_inode_ne _ _ hj
  have hother : ∀ j < NINODE, j ≠ k → 0 < (c.state.inode j).ref →
      ¬ ((c.state.inode j).dev = e.ip.dev ∧ (c.state.inode j).inum = e.ip.inum) := by
    rintro j hj hjk hrj ⟨hd, hi⟩
    rcases hid with ⟨-, -, hno⟩ | ⟨hpos, hdev, hinum, -⟩
    · exact hno j hj hrj ⟨hd, hi⟩
    · exact hjk (h.unique j hj k hk hrj hpos (hd.trans hdev) (hi.trans hinum))
  refine ⟨fun j hj => ?_, fun j hj => ?_, fun i hi j hj => ?_, hc.truncOnce h⟩
  · by_cases hjk : j = k
    · subst hjk
      simpa [Users.entry] using hc.entryOk h
    · have hold := h.entry j hj
      simp only [Users.entry, Users.put, hne j hjk, upd_ne hjk]
      refine ⟨hold.counted, hold.busy, hold.single, hold.owned, fun hr hv hf => ?_⟩
      rcases hid with ⟨-, he, -⟩ | ⟨hpos, -, -, he | ⟨ev, hev, he⟩⟩
      · rw [he]
        exact hold.fresh hr hv hf
      · rw [he]
        exact hold.fresh hr hv hf
      · -- the event is one of another inode
        rw [he, fresh_cons_ne hev]
        · exact hold.fresh hr hv hf
        · exact fun ⟨hd, hi⟩ => hjk (h.unique j hj k hk hr hpos hd.symm hi.symm)
  · have hjk : j ≠ k := by omega
    simp only [Users.put, upd_ne hjk]
    exact h.slots j hj
  · by_cases hik : i = k <;> by_cases hjk : j = k
    · exact fun _ _ _ _ => hik.trans hjk.symm
    · subst hik
      simp only [Users.put, hsame, hne j hjk]
      exact fun hri hrj hd hn => absurd ⟨hd.symm, hn.symm⟩ (hother j hj hjk hrj)
    · subst hjk
      simp only [Users.put, hsame, hne i hik]
      exact fun hri hrj hd hn => absurd ⟨hd, hn⟩ (hother i hi hik hri)
    · simp only [Users.put, hne i hik, hne j hjk]
      exact h.unique i hi j hj

lemma Run.inv {s : State} (hrun : Run (start s) c) : Inv c := by
  induction hrun with
  | refl => exact start_inv s
  | tail _ hs ih => exact ih.step hs

/-- A step leaves each entry to its inode, unless it recycles an entry without references. -/
lemma Step.identity (h : Inv c) (hs : Step c c') (j : Nat) : (c.state.inode j).ref = 0 ∨
    (c'.state.inode j).dev = (c.state.inode j).dev ∧
      (c'.state.inode j).inum = (c.state.inode j).inum := by
  obtain ⟨k, p, e, hc, rfl⟩ := hs.entry h
  by_cases hjk : j = k
  · subst hjk
    obtain ⟨-, ⟨hzero, -⟩ | ⟨-, hd, hi, -⟩⟩ := hc.identity h
    · exact .inl hzero
    · exact .inr (by simp [hd, hi])
  · refine .inr ?_
    simp only [Users.put, State.setInode_inode_ne _ _ hjk, and_self]

/-- A process starts to free an inode only with the last reference to it. -/
lemma Step.lastRef (h : Inv c) (hs : Step c c') {j q : Nat} (hq : q ∈ c'.freeing j)
    (hn : q ∉ c.freeing j) : c.refs j = [q] := by
  obtain ⟨k, p, e, hc, rfl⟩ := hs.entry h
  by_cases hjk : j = k
  · subst hjk
    change q ∈ upd c.freeing j e.freeing j at hq
    rw [upd_same] at hq
    cases hc with
    | free hm hone =>
      obtain rfl := (mem_cons.mp hq).resolve_right hn
      have hlen : (c.state.inode j).ref = (c.refs j).length := (h.entry j (h.ref_pos hm).1).counted
      rw [hone] at hlen
      obtain ⟨r, hr⟩ := length_eq_one_iff.mp (by omega : (c.refs j).length = 1)
      rw [hr] at hm ⊢
      rw [mem_singleton.mp hm]
    | freed => exact absurd (mem_of_mem_erase hq) hn
    | _ => exact absurd hq hn
  · change q ∈ upd c.freeing k e.freeing j at hq
    rw [upd_ne hjk] at hq
    exact absurd hq hn

/-- A machine with an empty cache. -/
def blank : State :=
  ⟨0, fun _ _ => 0, ⟨0, 0, false, []⟩, fun _ => {}, fun _ => {}, fun _ => {}, [],
    fun _ => {}, []⟩

end Icache

end Xv6
