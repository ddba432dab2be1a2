import Xv6.Lib.Bytes

/-!
# Moving and filling memory

`memmove` and `memset` of `string.c`. An address is a 32-bit number, and the pointers of a loop wrap
around as the machine's do.
-/

namespace Xv6.Kernel

open Lib

/-- The memory a pointer reaches. -/
abbrev Memory := BitVec 32 → Byte

/-- `*p = b`. -/
def Memory.store (m : Memory) (p : BitVec 32) (b : Byte) : Memory :=
  fun a => if a = p then b else m a

@[simp] lemma Memory.store_same (m : Memory) (p : BitVec 32) (b : Byte) : m.store p b p = b := by
  simp [store]

lemma Memory.store_ne (m : Memory) {a p : BitVec 32} (b : Byte) (h : a ≠ p) :
    m.store p b a = m a := by
  simp [store, h]

/-- A word at `p`, low byte first. -/
def Memory.storeWord (m : Memory) (p w : BitVec 32) : Memory :=
  (((m.store p (w.extractLsb' 0 8)).store (p + 1) (w.extractLsb' 8 8)).store (p + 2)
    (w.extractLsb' 16 8)).store (p + 3) (w.extractLsb' 24 8)

/-- `while(n-- > 0) *d++ = *s++;` -/
def copyUp (d s : BitVec 32) : Nat → Memory → Memory
  | 0, m => m
  | n + 1, m => copyUp (d + 1) (s + 1) n (m.store d (m s))

/-- `while(n-- > 0) *--d = *--s;` -/
def copyDown (d s : BitVec 32) : Nat → Memory → Memory
  | 0, m => m
  | n + 1, m => copyDown (d - 1) (s - 1) n (m.store (d - 1) (m (s - 1)))

def memmove (dst src n : BitVec 32) (m : Memory) : Memory :=
  if src < dst ∧ src + n > dst then
    copyDown (dst + n) (src + n) n.toNat m
  else
    copyUp dst src n.toNat m

/-- `rep stosb`: the low byte of `data`, `cnt` times. -/
def stosb (addr data : BitVec 32) : Nat → Memory → Memory
  | 0, m => m
  | cnt + 1, m => stosb (addr + 1) data cnt (m.store addr (data.extractLsb' 0 8))

/-- `rep stosl`: the word `data`, `cnt` times. -/
def stosl (addr data : BitVec 32) : Nat → Memory → Memory
  | 0, m => m
  | cnt + 1, m => stosl (addr + 4) data cnt (m.storeWord addr data)

/-- `(c<<24)|(c<<16)|(c<<8)|c`. -/
def fourTimes (c : BitVec 32) : BitVec 32 := (c <<< 24) ||| (c <<< 16) ||| (c <<< 8) ||| c

/-- The test of the address is on an `int`, the one of the length on a `uint`. -/
def memset (dst c n : BitVec 32) (m : Memory) : Memory :=
  if dst.srem 4 = 0 ∧ n % 4 = 0 then
    stosl dst (fourTimes (c &&& 0xFF)) (n / 4).toNat m
  else
    stosb dst c n.toNat m

/-! ### Moving -/

variable {m : Memory} {a b d s dst src n c : BitVec 32} {k : Nat}

/-- Upwards, what is still to be read is not where the copy has just written. -/
lemma read_ne_above (h : d = s ∨ k ≤ (d - s).toNat) (had : a ≠ d) (hlt : (a - d).toNat < k) :
    s + (a - d) ≠ d := by
  bv_omega

/-- Downwards, what is still to be read is not where the copy has just written. -/
lemma read_ne_below (hk : k < 2 ^ 32) (h : d = s ∨ k < (s - d).toNat) (hlt : (a - d).toNat < k) :
    s + (a - d) ≠ d + BitVec.ofNat 32 k := by
  bv_omega

/-- Copying upwards is exact when the destination does not start inside the source, unless the two
are the same. Distances are taken around the address space. -/
lemma copyUp_apply (hk : k ≤ 2 ^ 32) (h : d = s ∨ k ≤ (d - s).toNat) :
    copyUp d s k m a = if (a - d).toNat < k then m (s + (a - d)) else m a := by
  induction k generalizing d s m with
  | zero => simp [copyUp]
  | succ k ih =>
    have hdist : d + 1 - (s + 1) = d - s := by bv_omega
    have hnext : d + 1 = s + 1 ∨ k ≤ (d + 1 - (s + 1)).toNat := by
      rw [hdist]
      exact h.imp (fun h => by rw [h]) Nat.le_of_succ_le
    have hsrc : s + 1 + (a - (d + 1)) = s + (a - d) := by bv_omega
    rw [copyUp, ih (Nat.le_of_succ_le hk) hnext, hsrc]
    clear hdist hnext hsrc ih
    by_cases had : a = d
    · have hout : ¬ (a - (d + 1)).toNat < k := by bv_omega
      have hin : (a - d).toNat < k + 1 := by bv_omega
      have hzero : s + (a - d) = s := by bv_omega
      rw [if_neg hout, if_pos hin, hzero, had, Memory.store_same]
    · have hiff : (a - (d + 1)).toNat < k ↔ (a - d).toNat < k + 1 := by bv_omega
      simp only [hiff, Memory.store_ne _ _ had]
      split_ifs with hlt
      · exact Memory.store_ne _ _ (read_ne_above h had hlt)
      · rfl

/-- Copying downwards is exact when the source does not start inside the destination, unless the two
are the same. -/
lemma copyDown_apply (hk : k ≤ 2 ^ 32) (h : d = s ∨ k ≤ (s - d).toNat) :
    copyDown (d + BitVec.ofNat 32 k) (s + BitVec.ofNat 32 k) k m a =
      if (a - d).toNat < k then m (s + (a - d)) else m a := by
  induction k generalizing m with
  | zero => simp [copyDown]
  | succ k ih =>
    have hd : d + BitVec.ofNat 32 (k + 1) - 1 = d + BitVec.ofNat 32 k := by bv_omega
    have hs : s + BitVec.ofNat 32 (k + 1) - 1 = s + BitVec.ofNat 32 k := by bv_omega
    rw [copyDown, hd, hs, ih (by omega) (h.imp id Nat.le_of_succ_le)]
    by_cases had : a = d + BitVec.ofNat 32 k
    · have hoff : a - d = BitVec.ofNat 32 k := by bv_omega
      have hk' : (BitVec.ofNat 32 k).toNat = k := by
        rw [BitVec.toNat_ofNat, Nat.mod_eq_of_lt (by omega)]
      rw [hoff, hk', if_neg (Nat.lt_irrefl k), if_pos (Nat.lt_succ_self k), had, Memory.store_same]
    · have hiff : (a - d).toNat < k + 1 ↔ (a - d).toNat < k := by bv_omega
      simp only [hiff, Memory.store_ne _ _ had]
      split_ifs with hlt
      · exact Memory.store_ne _ _ (read_ne_below hk h hlt)
      · rfl

/-- A move is exact: the direction is the one in which no byte is overwritten before it is read. -/
lemma memmove_apply (hd : dst.toNat + n.toNat ≤ 2 ^ 32) (hs : src.toNat + n.toNat ≤ 2 ^ 32) :
    memmove dst src n m a =
      if (a - dst).toNat < n.toNat then m (src + (a - dst)) else m a := by
  unfold memmove
  split
  case isTrue hover =>
    have hdist : n.toNat ≤ (src - dst).toNat := by bv_omega
    have h := copyDown_apply (m := m) (a := a) n.isLt.le (Or.inr hdist)
    rwa [BitVec.ofNat_toNat, BitVec.setWidth_eq] at h
  case isFalse hover =>
    apply copyUp_apply n.isLt.le
    bv_omega

/-! ### Filling -/

lemma stosb_apply (hk : k ≤ 2 ^ 32) :
    stosb d c k m a = if (a - d).toNat < k then c.extractLsb' 0 8 else m a := by
  induction k generalizing d m with
  | zero => simp [stosb]
  | succ k ih =>
    rw [stosb, ih (by omega)]
    by_cases had : a = d
    · have hout : ¬ (a - (d + 1)).toNat < k := by bv_omega
      have hin : (a - d).toNat < k + 1 := by bv_omega
      rw [if_neg hout, if_pos hin, had, Memory.store_same]
    · have hiff : (a - (d + 1)).toNat < k ↔ (a - d).toNat < k + 1 := by bv_omega
      simp only [hiff, Memory.store_ne _ _ had]

lemma and_mask_eq (c : BitVec 32) : c &&& 0xFF = (c.extractLsb' 0 8).setWidth 32 := by
  apply BitVec.eq_of_toNat_eq
  have hmask : BitVec.toNat (0xFF : BitVec 32) = 2 ^ 8 - 1 := rfl
  rw [BitVec.toNat_and, BitVec.toNat_setWidth, BitVec.extractLsb'_toNat, hmask,
    Nat.and_two_pow_sub_one_eq_mod, Nat.shiftRight_zero]
  omega

lemma extractLsb'_fourTimes :
    ∀ b : BitVec 8, (fourTimes (b.setWidth 32)).extractLsb' 0 8 = b ∧
      (fourTimes (b.setWidth 32)).extractLsb' 8 8 = b ∧
      (fourTimes (b.setWidth 32)).extractLsb' 16 8 = b ∧
      (fourTimes (b.setWidth 32)).extractLsb' 24 8 = b := by
  decide +kernel

/-- Each byte of the word is the low byte of `c`. -/
lemma storeWord_fourTimes (m : Memory) (p c : BitVec 32) :
    m.storeWord p (fourTimes (c &&& 0xFF)) = stosb p c 4 m := by
  obtain ⟨h0, h1, h2, h3⟩ := extractLsb'_fourTimes (c.extractLsb' 0 8)
  rw [and_mask_eq, Memory.storeWord, h0, h1, h2, h3]
  simp [stosb, BitVec.add_assoc]

lemma stosb_add (j : Nat) :
    stosb d c (j + k) m = stosb (d + BitVec.ofNat 32 j) c k (stosb d c j m) := by
  induction j generalizing d m with
  | zero => simp [stosb]
  | succ j ih =>
    have hd : d + 1 + BitVec.ofNat 32 j = d + BitVec.ofNat 32 (j + 1) := by bv_omega
    rw [Nat.succ_add, stosb, ih, hd, ← stosb]

lemma stosl_eq_stosb (c : BitVec 32) :
    stosl d (fourTimes (c &&& 0xFF)) k m = stosb d c (4 * k) m := by
  induction k generalizing d m with
  | zero => rfl
  | succ k ih =>
    rw [stosl, ih, storeWord_fourTimes, Nat.mul_succ, Nat.add_comm, stosb_add]
    rfl

/-- The two paths of `memset` fill alike. -/
lemma memset_eq_stosb (dst c n : BitVec 32) (m : Memory) :
    memset dst c n m = stosb dst c n.toNat m := by
  unfold memset
  split_ifs with h
  · have hmod : (n % 4).toNat = 0 := by
      rw [h.2]
      rfl
    have hn : 4 * (n / 4).toNat = n.toNat := by
      rw [BitVec.toNat_umod] at hmod
      rw [BitVec.toNat_udiv]
      exact Nat.mul_div_cancel' (Nat.dvd_of_mod_eq_zero hmod)
    rw [stosl_eq_stosb, hn]
  · rfl

/-- The range of `n` bytes from `p` on is inside the address space. -/
def InRange (p n : BitVec 32) : Prop := p.toNat + n.toNat ≤ 2 ^ 32

instance (p n : BitVec 32) : Decidable (InRange p n) :=
  inferInstanceAs (Decidable (p.toNat + n.toNat ≤ 2 ^ 32))

/-- `a` is outside the range. -/
def Outside (p n a : BitVec 32) : Prop := a.toNat < p.toNat ∨ p.toNat + n.toNat ≤ a.toNat

lemma offset_lt {i : Nat} (hi : i < n.toNat) :
    (d + BitVec.ofNat 32 i - d) = BitVec.ofNat 32 i ∧ (BitVec.ofNat 32 i).toNat < n.toNat := by
  bv_omega

lemma Outside.le_offset (ha : Outside dst n a) (hd : InRange dst n) :
    ¬ (a - dst).toNat < n.toNat := by
  simp only [Outside, InRange] at ha hd
  bv_omega

/-- Moving and filling are exact. A move leaves at the destination what the source held before,
whichever way the two overlap, and nothing else changes. A fill leaves what its byte by byte path
leaves: the low byte of `c` everywhere in the range, and nothing else changes. -/
theorem memmove_memset_exact (m : Memory) (dst src n c : BitVec 32) :
    (InRange dst n → InRange src n →
      (∀ i < n.toNat,
        memmove dst src n m (dst + BitVec.ofNat 32 i) = m (src + BitVec.ofNat 32 i)) ∧
      ∀ a, Outside dst n a → memmove dst src n m a = m a) ∧
    memset dst c n m = stosb dst c n.toNat m ∧
    (InRange dst n →
      (∀ i < n.toNat, memset dst c n m (dst + BitVec.ofNat 32 i) = c.extractLsb' 0 8) ∧
      ∀ a, Outside dst n a → memset dst c n m a = m a) := by
  refine ⟨fun hd hs => ⟨fun i hi => ?_, fun a ha => ?_⟩, memset_eq_stosb dst c n m,
    fun hd => ⟨fun i hi => ?_, fun a ha => ?_⟩⟩
  · obtain ⟨hat, hin⟩ := offset_lt (d := dst) hi
    rw [memmove_apply hd hs, hat, if_pos hin]
  · rw [memmove_apply hd hs, if_neg (ha.le_offset hd)]
  · obtain ⟨hat, hin⟩ := offset_lt (d := dst) hi
    rw [memset_eq_stosb, stosb_apply n.isLt.le, hat, if_pos hin]
  · rw [memset_eq_stosb, stosb_apply n.isLt.le, if_neg (ha.le_offset hd)]

/-- Six bytes moved up by two, over themselves: the second one arrives. -/
theorem memmove_memset_exact_overlap :
    memmove 0x1002 0x1000 6 (fun a => a.setWidth 8) 0x1003 = 1 := by
  have h := (memmove_memset_exact (fun a => a.setWidth 8) 0x1002 0x1000 6 0).1 (by decide)
    (by decide)
  exact h.1 1 (by decide)

end Xv6.Kernel
