import Xv6.Fs.Write

/-!
# Inodes on the disk and `iupdate`

`dinode sect i` is inode `i` as the kernel reads it from the disk: of the addresses only the
`NDIRECT+1` that fit the in-memory inode. `iupdate` stores exactly what `Inode.dinode` says.
-/

namespace Xv6

open Lib Prog

/-- Of the addresses only those that fit the in-memory inode. -/
def cutAddrs (a : Nat → Nat) (p : Nat) : Nat := if p ≤ NDIRECT then a p else 0

/-- Inode `i` on the disk, as the kernel reads it. -/
def dinode (sect : Nat → Bytes) (i : Nat) : Dinode :=
  let d := getDinode (sect (IBLOCK i)) (i % IPB)
  { d with addrs := cutAddrs d.addrs }

/-- The disk inode that `iupdate` makes of a cached one. -/
def Inode.dinode (ip : Inode) : Dinode :=
  ⟨ip.type, ip.major, ip.minor, ip.nlink, ip.size, cutAddrs ip.addrs⟩

/-- The numbers of an inode fit their fields on the disk. -/
def Inode.Fits (ip : Inode) : Prop := ip.size < 2 ^ 32 ∧ ∀ p ≤ NDIRECT, ip.addrs p < 2 ^ 32

lemma cutAddrs_of_le {a : Nat → Nat} {p : Nat} (hp : p ≤ NDIRECT) : cutAddrs a p = a p := if_pos hp

lemma cutAddrs_congr {a a' : Nat → Nat} (h : ∀ p ≤ NDIRECT, a' p = a p) :
    cutAddrs a' = cutAddrs a := by
  funext p
  unfold cutAddrs
  split_ifs with hp
  exacts [h p hp, rfl]

lemma ptr_cutAddrs (sect : Nat → Bytes) (a : Nat → Nat) (p : Nat) :
    ptr sect (cutAddrs a) p = ptr sect a p :=
  ptr_congr (fun _ hp => cutAddrs_of_le hp) fun _ => rfl

/-! ### The stores of `iupdate` -/

section Put

variable {b : Bytes} {j j' n o l p : Nat} {a : Nat → Nat} {ip : Inode}

/-- `memmove` of the addresses writes nothing else. -/
lemma putAddrs_of_not (h : o + l ≤ DINODESIZE * j + 12 ∨ DINODESIZE * j + 12 + 4 * n ≤ o) :
    (putAddrs b j a n).le o l = b.le o l := by
  induction n with
  | zero => rfl
  | succ n ih =>
    rw [putAddrs, Bytes.le_putLe_of_disjoint (by omega), ih (by omega)]

lemma putAddrs_le (hp : p < n) (ha : a p < 2 ^ 32) :
    (putAddrs b j a n).le (DINODESIZE * j + 12 + 4 * p) 4 = a p := by
  induction n with
  | zero => omega
  | succ n ih =>
    rw [putAddrs]
    rcases Nat.lt_or_ge p n with hlt | hge
    · rw [Bytes.le_putLe_of_disjoint (by omega), ih hlt]
    · obtain rfl : p = n := by omega
      rw [Bytes.le_putLe_same]
      exact Nat.mod_eq_of_lt ha

lemma putDinode_of_not (h : o + l ≤ DINODESIZE * j ∨ DINODESIZE * j + DINODESIZE ≤ o) :
    (putDinode b j ip).le o l = b.le o l := by
  have hd : DINODESIZE = 64 := rfl
  unfold putDinode
  rw [putAddrs_of_not (by simp only [NDIRECT]; omega), Bytes.le_putLe_of_disjoint (by omega),
    Bytes.le_putLe_of_disjoint (by omega), Bytes.le_putLe_of_disjoint (by omega),
    Bytes.le_putLe_of_disjoint (by omega), Bytes.le_putLe_of_disjoint (by omega)]

lemma ofNat_toNat_mod (x : BitVec 16) : BitVec.ofNat 16 (x.toNat % 256 ^ 2) = x := by
  have hx : x.toNat % 256 ^ 2 = x.toNat := Nat.mod_eq_of_lt x.isLt
  rw [hx, BitVec.ofNat_toNat, BitVec.setWidth_eq]

/-- What `iupdate` stores is read back. -/
lemma getDinode_putDinode (h : ip.Fits) :
    { getDinode (putDinode b j ip) j with
      addrs := cutAddrs (getDinode (putDinode b j ip) j).addrs } = ip.dinode := by
  have hd : DINODESIZE = 64 := rfl
  have hadd : cutAddrs (getDinode (putDinode b j ip) j).addrs = cutAddrs ip.addrs := by
    refine cutAddrs_congr fun p hp => ?_
    exact putAddrs_le (Nat.lt_succ_of_le hp) (h.2 p hp)
  rw [hadd]
  simp only [getDinode, putDinode, Inode.dinode, Dinode.mk.injEq, and_true]
  refine ⟨?_, ?_, ?_, ?_, ?_⟩
  · rw [putAddrs_of_not (by omega), Bytes.le_putLe_of_disjoint (by omega),
      Bytes.le_putLe_of_disjoint (by omega), Bytes.le_putLe_of_disjoint (by omega),
      Bytes.le_putLe_of_disjoint (by omega), Bytes.le_putLe_same, ofNat_toNat_mod]
  · rw [putAddrs_of_not (by omega), Bytes.le_putLe_of_disjoint (by omega),
      Bytes.le_putLe_of_disjoint (by omega), Bytes.le_putLe_of_disjoint (by omega),
      Bytes.le_putLe_same, ofNat_toNat_mod]
  · rw [putAddrs_of_not (by omega), Bytes.le_putLe_of_disjoint (by omega),
      Bytes.le_putLe_of_disjoint (by omega), Bytes.le_putLe_same, ofNat_toNat_mod]
  · rw [putAddrs_of_not (by omega), Bytes.le_putLe_of_disjoint (by omega), Bytes.le_putLe_same,
      ofNat_toNat_mod]
  · rw [putAddrs_of_not (by omega), Bytes.le_putLe_same]
    exact Nat.mod_eq_of_lt h.1

/-- The kernel reads all of a disk inode but the last address. -/
lemma getDinode_congr {b b' : Bytes}
    (h : ∀ o l, DINODESIZE * j ≤ o → o + l + 4 ≤ DINODESIZE * j + DINODESIZE →
      b'.le o l = b.le o l) :
    { getDinode b' j with addrs := cutAddrs (getDinode b' j).addrs } =
      { getDinode b j with addrs := cutAddrs (getDinode b j).addrs } := by
  have hd : DINODESIZE = 64 := rfl
  have hadd : cutAddrs (getDinode b' j).addrs = cutAddrs (getDinode b j).addrs := by
    refine cutAddrs_congr fun p hp => h _ _ (by omega) ?_
    simp only [NDIRECT] at hp
    omega
  rw [hadd]
  simp only [getDinode, h (DINODESIZE * j) 2 (by omega) (by omega),
    h (DINODESIZE * j + 2) 2 (by omega) (by omega), h (DINODESIZE * j + 4) 2 (by omega) (by omega),
    h (DINODESIZE * j + 6) 2 (by omega) (by omega), h (DINODESIZE * j + 8) 4 (by omega) (by omega)]

end Put

/-! ### The inode blocks -/

section Iblock

variable {sect sect' : Nat → Bytes} {i j : Nat} {ip : Inode}

lemma IBLOCK_eq (i : Nat) : IBLOCK i = i / 8 + 2 := rfl

lemma IBLOCK_lt (hi : i < NINODES) : IBLOCK i < BITSTART := by
  rw [IBLOCK_eq]
  simp only [NINODES, BITSTART] at *
  omega

lemma dinode_congr (h : sect' (IBLOCK i) = sect (IBLOCK i)) : dinode sect' i = dinode sect i := by
  unfold dinode
  rw [h]

/-- Storing inode `i` in its block changes no other inode. -/
lemma dinode_upd {bp : Bytes} {d : Dinode}
    (hsame : { getDinode bp (i % IPB) with addrs := cutAddrs (getDinode bp (i % IPB)).addrs } = d)
    (hother : ∀ o l, o + l ≤ DINODESIZE * (i % IPB) ∨ DINODESIZE * (i % IPB) + DINODESIZE ≤ o →
      bp.le o l = (sect (IBLOCK i)).le o l) :
    dinode (upd sect (IBLOCK i) bp) j = if j = i then d else dinode sect j := by
  have hd : DINODESIZE = 64 := rfl
  split_ifs with hj
  · subst hj
    unfold dinode
    rw [upd_same]
    exact hsame
  · by_cases hb : IBLOCK j = IBLOCK i
    · unfold dinode
      rw [hb, upd_same]
      refine getDinode_congr fun o l h1 h2 => hother o l ?_
      have hne : j % IPB ≠ i % IPB := by
        rw [IBLOCK_eq, IBLOCK_eq] at hb
        change j % 8 ≠ i % 8
        omega
      rw [hd] at *
      omega
    · exact dinode_congr (upd_ne hb)

lemma dinode_upd_putDinode (h : ip.Fits) :
    dinode (upd sect (IBLOCK i) (putDinode (sect (IBLOCK i)) (i % IPB) ip)) j =
      if j = i then ip.dinode else dinode sect j :=
  dinode_upd (getDinode_putDinode h) fun _ _ ho => putDinode_of_not ho

end Iblock

end Xv6
