import Xv6.Fs.Lookup
import Mathlib.Tactic.IntervalCases

/-!
# The bits of the blocks

Where `balloc` and `bfree` find the bit of a block, for any number of inodes before the bitmap, and
the search of `balloc`. -/

namespace Xv6

open Lib Prog

/-! ### Bits of a bitmap block -/

lemma byte_bit (x : Byte) {j : Nat} (hj : j < 8) :
    ((x &&& (1#8 <<< j)) != 0#8) = x.getLsbD j := by
  revert x
  interval_cases j <;> decide

lemma bitSet_eq (bp : Bytes) (i : Nat) : bitSet bp i = (bp (i / 8)).getLsbD (i % 8) :=
  byte_bit _ (Nat.mod_lt _ (by decide))

lemma getLsbD_bit {i j : Nat} (hi : i < 8) (hj : j < 8) :
    (1#8 <<< i).getLsbD j = decide (j = i) := by
  interval_cases i <;> interval_cases j <;> rfl

lemma bitSet_setBit (bp : Bytes) (i j : Nat) :
    bitSet (setBit bp i) j = (decide (j = i) || bitSet bp j) := by
  simp only [bitSet_eq, setBit]
  by_cases h : j / 8 = i / 8
  · rw [h, upd_same, BitVec.getLsbD_or, getLsbD_bit (by omega) (by omega), Bool.or_comm]
    congr 1
    exact decide_eq_decide.mpr (by omega)
  · have hne : j ≠ i := fun e => h (by rw [e])
    rw [upd_ne h]
    simp [hne]

lemma bitSet_clearBit (bp : Bytes) (i j : Nat) :
    bitSet (clearBit bp i) j = (decide (j ≠ i) && bitSet bp j) := by
  simp only [bitSet_eq, clearBit]
  by_cases h : j / 8 = i / 8
  · have hd : decide (j % 8 = i % 8) = decide (j = i) := decide_eq_decide.mpr (by omega)
    rw [h, upd_same, BitVec.getLsbD_and, BitVec.getLsbD_not, getLsbD_bit (by omega) (by omega), hd,
      decide_not, Bool.and_comm, decide_eq_true (by omega), Bool.true_and]
  · have hne : j ≠ i := fun e => h (by rw [e])
    rw [upd_ne h]
    simp [hne]

lemma freeBit_eq (bp : Bytes) (n bi : Nat) :
    freeBit bp bi n = findFrom (fun i => !bitSet bp i) bi n := by
  induction n generalizing bi with
  | zero => rfl
  | succ n ih =>
    unfold freeBit findFrom
    rw [ih]
    cases bitSet bp bi <;> rfl

lemma freeBit_some {bp : Bytes} {n bi i : Nat} (h : freeBit bp bi n = some i) :
    bi ≤ i ∧ i < bi + n ∧ bitSet bp i = false ∧ ∀ j, bi ≤ j → j < i → bitSet bp j = true := by
  rw [freeBit_eq] at h
  obtain ⟨h1, h2, h3, h4⟩ := findFrom_some h
  exact ⟨h1, h2, by simpa using h3, fun j hj hji => by simpa using h4 j hj hji⟩

lemma freeBit_none {bp : Bytes} {n bi : Nat} (h : freeBit bp bi n = none) :
    ∀ j, bi ≤ j → j < bi + n → bitSet bp j = true := by
  rw [freeBit_eq] at h
  exact fun j hj hjn => by simpa using findFrom_none h j hj hjn

lemma setBit_eq (bp : Bytes) (i j : Nat) :
    bitSet (setBit bp i) j = if j = i then true else bitSet bp j := by
  rw [bitSet_setBit]
  split_ifs with h <;> simp [h]

lemma clearBit_eq (bp : Bytes) (i j : Nat) :
    bitSet (clearBit bp i) j = if j = i then false else bitSet bp j := by
  rw [bitSet_clearBit]
  split_ifs with h <;> simp [h]

/-! ### The search of `balloc` -/

/-- Block `b` is marked in use, on a disk with `ninodes` inodes. -/
def marked (ninodes : Nat) (sect : Nat → Bytes) (b : Nat) : Bool :=
  bitSet (sect (BBLOCK b ninodes)) (b % BPB)

/-- Two blocks do not share a bit. -/
lemma bit_injective {ninodes b c : Nat} (hblock : BBLOCK b ninodes = BBLOCK c ninodes)
    (hbit : b % BPB = c % BPB) : b = c := by
  simp only [BBLOCK] at hblock
  have hdiv : b / BPB = c / BPB := by omega
  rw [← Nat.div_add_mod b BPB, ← Nat.div_add_mod c BPB, hdiv, hbit]

lemma BBLOCK_add (ninodes m : Nat) {i : Nat} (hi : i < BPB) :
    BBLOCK (BPB * m + i) ninodes = BBLOCK (BPB * m) ninodes := by
  simp only [BBLOCK, BPB, BSIZE] at *
  omega

lemma marked_add (ninodes : Nat) (sect : Nat → Bytes) (m : Nat) {i : Nat} (hi : i < BPB) :
    marked ninodes sect (BPB * m + i) = bitSet (sect (BBLOCK (BPB * m) ninodes)) i := by
  rw [marked, BBLOCK_add _ _ hi, Nat.mul_add_mod, Nat.mod_eq_of_lt hi]

/-- Storing a bitmap block that differs from the old one in the bit of `r` changes only the bit
of `r`. -/
lemma marked_upd {ninodes : Nat} {sect : Nat → Bytes} {r b : Nat} {bp : Bytes} {v : Bool}
    (hbp : ∀ j, bitSet bp j =
      if j = r % BPB then v else bitSet (sect (BBLOCK r ninodes)) j) :
    marked ninodes (upd sect (BBLOCK r ninodes) bp) b =
      if b = r then v else marked ninodes sect b := by
  unfold marked
  by_cases h : BBLOCK b ninodes = BBLOCK r ninodes
  · rw [h, upd_same, hbp]
    by_cases hbr : b = r
    · rw [if_pos hbr, if_pos (by rw [hbr])]
    · rw [if_neg hbr, if_neg fun e => hbr (bit_injective h e)]
  · rw [upd_ne h, if_neg fun e => h (by rw [e])]

section Search

variable {s : State} {sb : Superblock} {Q : Nat → State → Prop} {E : Option Panic → State → Prop}

/-- What `balloc` does with the first block `r` that it finds clear. -/
def ballocTake (ninodes r : Nat) (bp : Bytes) : K Nat := do
  logWrite (BBLOCK r ninodes) (setBit bp (r % BPB))
  bzero ROOTDEV r
  pure r

/-- The loop of `balloc` from bitmap block `m` on, when the blocks before are all in use: it goes on
with the first block that is clear. -/
lemma wp_ballocLoop_least (hread : ∀ c < sb.size, BBLOCK c sb.ninodes < s.disksize)
    (hnone : (∀ c < sb.size, marked sb.ninodes s.sector c = true) → E (some .ballocOutOfBlocks) s)
    (hsome : ∀ r < sb.size, marked sb.ninodes s.sector r = false →
      (∀ c < r, marked sb.ninodes s.sector c = true) →
      (ballocTake sb.ninodes r (s.sector (BBLOCK r sb.ninodes))).wp Q E s)
    {n m : Nat} (hn : sb.size ≤ BPB * (m + n)) (hlast : n = 0 ∨ BPB * (m + n) < sb.size + BPB)
    (hm : ∀ c < BPB * m, c < sb.size → marked sb.ninodes s.sector c = true) :
    (ballocLoop ROOTDEV sb (BPB * m) n).wp Q E s := by
  induction n generalizing m with
  | zero =>
    rw [ballocLoop, wp_panic]
    exact hnone fun c hc => hm c (hc.trans_le hn) hc
  | succ n ih =>
    have hpos : 0 < BPB := by decide
    have hsplit : BPB * (m + (n + 1)) = BPB * (m + 1 + n) := by
      rw [Nat.add_right_comm m, Nat.add_assoc]
    have hsucc : BPB * (m + 1) = BPB * m + BPB := Nat.mul_succ ..
    have hge : BPB * (m + 1) ≤ BPB * (m + 1 + n) := Nat.mul_le_mul_left _ (Nat.le_add_right ..)
    have hlt : BPB * m < sb.size := by omega
    rw [ballocLoop]
    refine wp_bind.mpr (wp_of_run (run_bread rfl (hread _ hlt)) ?_)
    cases hf : freeBit (s.sector (BBLOCK (BPB * m) sb.ninodes)) 0 (min BPB (sb.size - BPB * m)) with
    | none =>
      rw [← hsucc]
      refine ih (by omega) (by omega) fun c hc hsize => ?_
      rcases Nat.lt_or_ge c (BPB * m) with h1 | h1
      · exact hm c h1 hsize
      · obtain ⟨i, rfl⟩ := Nat.exists_eq_add_of_le h1
        rw [marked_add _ _ _ (by omega)]
        exact freeBit_none hf i (Nat.zero_le i) (by omega)
    | some i =>
      obtain ⟨-, hi, hclear, hbefore⟩ := freeBit_some hf
      have hiB : i < BPB := by omega
      have := hsome (BPB * m + i) (by omega) (by rw [marked_add _ _ _ hiB, hclear]) ?_
      · rwa [ballocTake, BBLOCK_add _ _ hiB, Nat.mul_add_mod, Nat.mod_eq_of_lt hiB] at this
      · intro c hc
        rcases Nat.lt_or_ge c (BPB * m) with h1 | h1
        · exact hm c h1 (by omega)
        · obtain ⟨j, rfl⟩ := Nat.exists_eq_add_of_le h1
          rw [marked_add _ _ _ (by omega)]
          exact hbefore j (Nat.zero_le j) (by omega)

end Search

end Xv6
