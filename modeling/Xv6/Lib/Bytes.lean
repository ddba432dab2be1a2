import Mathlib.Algebra.BigOperators.Fin

/-!
# Byte arrays and little-endian numbers in them
-/

namespace Xv6.Lib

/-- A byte. -/
abbrev Byte := BitVec 8

/-- An array of bytes. Only the offsets the owner of the array uses have a meaning. -/
abbrev Bytes := Nat → Byte

/-- Store at one index of an array. -/
def upd {α : Type} (f : Nat → α) (i : Nat) (a : α) : Nat → α := fun j => if j = i then a else f j

@[simp] lemma upd_same {α : Type} (f : Nat → α) (i : Nat) (a : α) : upd f i a i = a := by
  simp [upd]

lemma upd_ne {α : Type} {f : Nat → α} {i j : Nat} {a : α} (h : j ≠ i) : upd f i a j = f j := by
  simp [upd, h]

@[simp] lemma upd_upd {α : Type} (f : Nat → α) (i : Nat) (a b : α) :
    upd (upd f i a) i b = upd f i b := by
  funext j
  simp only [upd]
  split_ifs <;> rfl

@[simp] lemma upd_eq_self {α : Type} (f : Nat → α) (i : Nat) : upd f i (f i) = f := by
  funext j
  simp only [upd]
  split_ifs with h
  · rw [h]
  · rfl

namespace Bytes

/-- The `k`-byte little-endian number at offset `o`. -/
def le (b : Bytes) (o : Nat) : Nat → Nat
  | 0 => 0
  | k + 1 => (b o).toNat + 256 * le b (o + 1) k

/-- Store the low `k` bytes of `v`, low byte first, at offset `o`. -/
def putLe (b : Bytes) (o k v : Nat) : Bytes := fun j =>
  if o ≤ j ∧ j < o + k then BitVec.ofNat 8 (v / 256 ^ (j - o)) else b j

/-- The `n` bytes from offset `o` on. -/
def slice (b : Bytes) (o n : Nat) : List Byte := (List.range n).map fun i => b (o + i)

/-- Copy the list `xs` into the array at offset `o`. -/
def splice (b : Bytes) (o : Nat) (xs : List Byte) : Bytes := fun j =>
  if o ≤ j ∧ j < o + xs.length then xs.getD (j - o) 0 else b j

/-- Fill `n` bytes from offset `o` on with zeroes. -/
def zero (b : Bytes) (o n : Nat) : Bytes := fun j => if o ≤ j ∧ j < o + n then 0 else b j

/-! ### Reading back what was stored -/

variable {b b' : Bytes} {o o' k k' v : Nat}

lemma le_lt (b : Bytes) (o k : Nat) : b.le o k < 256 ^ k := by
  induction k generalizing o with
  | zero => simp [le]
  | succ k ih =>
    have h := ih (o + 1)
    have h0 := (b o).isLt
    rw [le, Nat.pow_succ]
    omega

lemma le_congr (h : ∀ j, o ≤ j → j < o + k → b j = b' j) : b.le o k = b'.le o k := by
  induction k generalizing o with
  | zero => rfl
  | succ k ih =>
    rw [le, le, h o le_rfl (by omega), ih fun j h1 h2 => h j (by omega) (by omega)]

lemma putLe_of_not {j : Nat} (h : j < o ∨ o + k ≤ j) : b.putLe o k v j = b j :=
  if_neg (by omega)

/-- The tail of a stored number, from its byte `i` on. -/
lemma le_putLe_from (b : Bytes) (o n v : Nat) :
    ∀ k i, i + k = n → (b.putLe o n v).le (o + i) k = v / 256 ^ i % 256 ^ k := by
  intro k
  induction k with
  | zero => intro i _; simp [le, Nat.mod_one]
  | succ k ih =>
    intro i hi
    have hbyte : b.putLe o n v (o + i) = BitVec.ofNat 8 (v / 256 ^ i) := by
      simp only [putLe]
      rw [if_pos (by omega), Nat.add_sub_cancel_left]
    rw [le, hbyte, Nat.add_assoc, ih (i + 1) (by omega), BitVec.toNat_ofNat, Nat.pow_succ 256 i,
      ← Nat.div_div_eq_div_mul, show 256 ^ (k + 1) = 256 * 256 ^ k from Nat.pow_succ',
      Nat.mod_mul]

@[simp] lemma le_putLe_same (b : Bytes) (o k v : Nat) : (b.putLe o k v).le o k = v % 256 ^ k := by
  simpa using le_putLe_from b o k v k 0 (by omega)

lemma le_putLe_of_disjoint (h : o + k ≤ o' ∨ o' + k' ≤ o) :
    (b.putLe o' k' v).le o k = b.le o k :=
  le_congr fun _ h1 h2 => putLe_of_not (by omega)

end Bytes

end Xv6.Lib
