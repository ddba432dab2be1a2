import Xv6.Fs.Bits

/-!
# The bitmap as a set of blocks

What `balloc` and `bfree` do to the bits, on a disk of any size with any number of inodes.
-/

namespace Xv6

open Lib Prog

/-- Block `c` belongs to the log. -/
def State.InLog (s : State) (c : Nat) : Prop := s.log.start ≤ c ∧ c < s.log.start + s.log.size

/-- The disk has the super block `sb`, and what `balloc` and `bfree` read is marked in use: the
bitmap blocks and the super block. The log is elsewhere. The numbers of the blocks can be counted
with an `int`. -/
structure Formatted (s : State) (sb : Superblock) : Prop where
  super : getSuperblock (s.sector 1) = sb
  size_le : sb.size + BPB ≤ 2 ^ 31
  disk : sb.size ≤ s.disksize
  one : 1 < sb.size ∧ marked sb.ninodes s.sector 1 = true
  bitmap : ∀ b < sb.size, BBLOCK b sb.ninodes < sb.size ∧
    marked sb.ninodes s.sector (BBLOCK b sb.ninodes) = true
  apart : ∀ c, s.InLog c → c ≠ 1 ∧ ∀ b < sb.size, c ≠ BBLOCK b sb.ninodes

/-- A transaction is active and `log_write` may be called `n` times. -/
structure State.Open (s : State) (n : Nat) : Prop where
  busy : s.log.busy = true
  logsize : s.log.lh.length + n ≤ LOGSIZE
  size : s.log.lh.length + n < s.log.size

section Logged

variable {s : State} {sb : Superblock} {b c n r : Nat} {data : Bytes}

lemma State.Open.mono {m : Nat} (h : s.Open n) (hm : m ≤ n) : s.Open m :=
  ⟨h.busy, by have := h.logsize; omega, by have := h.size; omega⟩

lemma State.Open.logged (h : s.Open (n + 1)) : (s.logged b data).Open n := by
  have hlen : (s.logged b data).log.lh.length ≤ s.log.lh.length + 1 := by
    simp only [State.logged]
    split_ifs <;> simp
  refine ⟨h.busy, ?_, ?_⟩
  · have := h.logsize
    omega
  · have := h.size
    change _ < s.log.size
    omega

/-- Outside the log, `log_write` is a store. -/
lemma State.Open.sector_logged (h : s.Open 1) (hc : ¬ s.InLog c) :
    (s.logged b data).sector c = upd s.sector b data c := by
  refine upd_ne ?_
  rintro rfl
  have hslot : logSlot s.log.lh b ≤ s.log.lh.length := List.idxOf_le_length
  have hsize := h.size
  exact hc ⟨by omega, by omega⟩

@[simp] lemma inLog_logged : (s.logged b data).InLog c ↔ s.InLog c := Iff.rfl

end Logged

/-! ### `balloc` and `bfree` -/

section Run

variable {s s' : State} {sb : Superblock} {b c r : Nat}

/-- The state after `bfree` of `b`. -/
def State.release (s : State) (ninodes b : Nat) : State :=
  s.logged (BBLOCK b ninodes) (clearBit (s.sector (BBLOCK b ninodes)) (b % BPB))

lemma Formatted.wp_balloc (h : Formatted s sb) {Q : Nat → State → Prop}
    {E : Option Panic → State → Prop}
    (hnone : (∀ c < sb.size, marked sb.ninodes s.sector c = true) → E (some .ballocOutOfBlocks) s)
    (hsome : ∀ r < sb.size, marked sb.ninodes s.sector r = false →
      (∀ c < r, marked sb.ninodes s.sector c = true) →
      (ballocTake sb.ninodes r (s.sector (BBLOCK r sb.ninodes))).wp Q E s) :
    (balloc ROOTDEV).wp Q E s := by
  have hone : 1 < s.disksize := h.one.1.trans_le h.disk
  unfold balloc readsb
  rw [bind_assoc]
  refine wp_bind.mpr (wp_of_run (run_bread rfl hone) ?_)
  rw [pure_bind, h.super]
  refine wp_ballocLoop_least (m := 0) (fun c hc => (h.bitmap c hc).1.trans_le h.disk) hnone hsome
    ?_ ?_ fun c hc => absurd hc (Nat.not_lt_zero c)
  · simp only [BPB, BSIZE]
    omega
  · simp only [BPB, BSIZE]
    omega

end Run

end Xv6
