import Xv6.Fs.MkfsReads

/-!
# Directories as finite maps

`dirlookup`, `dirlink` and the clearing of an entry in `sys_unlink`, over the array of bytes that
`readi` and `writei` make of a directory. Whatever names are linked and cleared, the entries of the
array form a finite map from names to inode numbers, where names count up to a NUL and up to
`DIRSIZ` bytes.
-/

namespace Xv6

open Lib Prog List

/-! ### The code -/

/-- `readi` of the directory entry at offset `off`, which must succeed. -/
def arrayReadDirent (data : List Byte) (off : Nat) (e : Panic) : Except Panic (List Byte) :=
  if (arrayRead data off DIRENTSIZE).1 = DIRENTSIZE then .ok (arrayRead data off DIRENTSIZE).2
  else .error e

/-- The loop of `dirlookup`. -/
def arrayDirlookupLoop (data name : List Byte) (off : Nat) :
    Nat → Except Panic (Option (Nat × Nat))
  | 0 => .ok none
  | fuel + 1 =>
    if off < data.length then
      match arrayReadDirent data off .dirlinkRead with
      | .error e => .error e
      | .ok de =>
        if direntInum de ≠ 0 ∧ namecmp (cstr name) (direntName de) = 0 then
          .ok (some (direntInum de, off))
        else arrayDirlookupLoop data name (off + DIRENTSIZE) fuel
    else .ok none

/-- `dirlookup`: the inode number and the byte offset of the entry. -/
def arrayDirlookup (data name : List Byte) : Except Panic (Option (Nat × Nat)) :=
  arrayDirlookupLoop data name 0 (data.length + 1)

/-- The search of `dirlink` for an empty entry. -/
def arrayDirlinkLoop (data : List Byte) (off : Nat) : Nat → Except Panic Nat
  | 0 => .ok off
  | fuel + 1 =>
    if off < data.length then
      match arrayReadDirent data off .dirlinkRead with
      | .error e => .error e
      | .ok de => if direntInum de = 0 then .ok off else arrayDirlinkLoop data
          (off + DIRENTSIZE) fuel
    else .ok off

/-- `writei` of the entry `de` at offset `off`, which must succeed. -/
def arrayWriteDirent (data : List Byte) (off : Nat) (de : List Byte) (e : Panic) :
    Except Panic (Int × List Byte) :=
  if (arrayWrite data off de).1 = DIRENTSIZE then .ok (0, (arrayWrite data off de).2)
  else .error e

/-- `dirlink`: the result and the directory it leaves. -/
def arrayDirlink (data name : List Byte) (inum : Nat) : Except Panic (Int × List Byte) :=
  match arrayDirlookup data name with
  | .error e => .error e
  | .ok (some _) => .ok (-1, data)
  | .ok none =>
    match arrayDirlinkLoop data 0 (data.length + 1) with
    | .error e => .error e
    | .ok off => arrayWriteDirent data off (mkDirent inum name) .dirlink

/-- The part of `sys_unlink` that looks a name up and clears its entry. -/
def arrayUnlink (data name : List Byte) : Except Panic (Int × List Byte) :=
  match arrayDirlookup data name with
  | .error e => .error e
  | .ok none => .ok (-1, data)
  | .ok (some (_, off)) =>
    arrayWriteDirent data off (List.replicate DIRENTSIZE 0) .unlinkWritei

/-! ### Names -/

/-- What counts of a name: its bytes up to a NUL, at most `DIRSIZ` of them. -/
def key (name : List Byte) : List Byte := (name.take DIRSIZ).takeWhile (· ≠ 0)

section Key

variable {a b name : List Byte} {i n inum : Nat}

lemma takeWhile_take_drop_succ : ((a.drop i).take (n + 1)).takeWhile (· ≠ 0) =
    if cstr a i = 0 then [] else cstr a i :: ((a.drop (i + 1)).take n).takeWhile (· ≠ 0) := by
  rcases Nat.lt_or_ge i a.length with hi | hi
  · have hget : cstr a i = a[i] := getD_eq_getElem _ _ hi
    rw [drop_eq_getElem_cons hi, take_succ_cons, takeWhile_cons, hget]
    by_cases h0 : a[i] = 0
    · rw [if_pos h0, if_neg (by simpa using h0)]
    · rw [if_neg h0, if_pos (by simpa using h0)]
  · have hget : cstr a i = 0 := getD_eq_default _ _ hi
    rw [drop_eq_nil_of_le hi, if_pos hget]
    rfl

/-- `strncmp` compares what counts. -/
lemma strncmp_eq_zero_iff_takeWhile : strncmp (cstr a) (cstr b) i n = 0 ↔
    ((a.drop i).take n).takeWhile (· ≠ 0) = ((b.drop i).take n).takeWhile (· ≠ 0) := by
  induction n generalizing i with
  | zero => simp [strncmp]
  | succ n ih =>
    rw [takeWhile_take_drop_succ, takeWhile_take_drop_succ, strncmp]
    by_cases ha : cstr a i = 0
    · rw [if_neg fun h => h.1 ha, if_pos ha, ha]
      by_cases hb : cstr b i = 0
      · simp [hb]
      · have : (cstr b i).toNat ≠ 0 := fun h => hb (BitVec.eq_of_toNat_eq h)
        rw [if_neg hb]
        simp
        omega
    · rw [if_neg ha]
      by_cases hb : cstr b i = 0
      · have : (cstr a i).toNat ≠ 0 := fun h => ha (BitVec.eq_of_toNat_eq h)
        rw [if_neg fun h => ha (h.2.trans hb), if_pos hb, hb]
        simp
        omega
      · rw [if_neg hb, List.cons.injEq]
        by_cases hab : cstr a i = cstr b i
        · rw [if_pos ⟨ha, hab⟩, ih]
          simp [hab]
        · have : (cstr a i).toNat ≠ (cstr b i).toNat := fun h => hab (BitVec.eq_of_toNat_eq h)
          rw [if_neg fun h => hab h.2]
          simp only [hab, false_and, iff_false]
          omega

lemma namecmp_eq_zero_iff : namecmp (cstr a) (cstr b) = 0 ↔ key a = key b := by
  unfold namecmp key
  rw [strncmp_eq_zero_iff_takeWhile]
  rfl

/-- `strncpy` copies what counts. -/
lemma takeWhile_strncpy : (strncpy (cstr a) i n).takeWhile (· ≠ 0) =
    ((a.drop i).take n).takeWhile (· ≠ 0) := by
  induction n generalizing i with
  | zero => rfl
  | succ n ih =>
    rw [takeWhile_take_drop_succ, strncpy]
    split_ifs with h0
    · rfl
    · rw [takeWhile_cons_of_pos (by simpa using h0), ih]

/-- The name of an entry, as an array. -/
lemma direntName_eq (de : List Byte) : direntName de = cstr (de.drop 2) := by
  funext j
  unfold direntName cstr
  rw [getD_eq_getElem?_getD, getD_eq_getElem?_getD, getElem?_drop]

lemma key_mkDirent : key ((mkDirent inum name).drop 2) = key name := by
  have hlen : ((mkDirent inum name).drop 2).length = DIRSIZ := by
    rw [length_drop, Mkfs.length_mkDirent]
    rfl
  unfold key
  rw [take_of_length_le hlen.le]
  exact takeWhile_strncpy

end Key

/-! ### Entries -/

/-- The number of entries. -/
def entries (data : List Byte) : Nat := data.length / DIRENTSIZE

/-- The `m`th entry. -/
def entry (data : List Byte) (m : Nat) : List Byte := (data.drop (DIRENTSIZE * m)).take DIRENTSIZE

def inumAt (data : List Byte) (m : Nat) : Nat := direntInum (entry data m)

def nameAt (data : List Byte) (m : Nat) : List Byte := key ((entry data m).drop 2)

/-- The `m`th entry is in use. -/
def InUse (data : List Byte) (m : Nat) : Prop := m < entries data ∧ inumAt data m ≠ 0

/-- A directory consists of whole entries. -/
structure IsDir (data : List Byte) : Prop where
  dvd : DIRENTSIZE ∣ data.length
  fits : data.length ≤ MAXFILE * BSIZE

section Loops

variable {data name src : List Byte} {m m' n off : Nat}

lemma IsDir.length_eq (h : IsDir data) : data.length = DIRENTSIZE * entries data :=
  (Nat.mul_div_cancel' h.dvd).symm

lemma IsDir.lt_iff (h : IsDir data) : DIRENTSIZE * m < data.length ↔ m < entries data := by
  rw [h.length_eq]
  exact Nat.mul_lt_mul_left (by decide)

lemma IsDir.readDirent (h : IsDir data) (hm : m < entries data) {e : Panic} :
    arrayReadDirent data (DIRENTSIZE * m) e = .ok (entry data m) := by
  have hlen := h.length_eq
  have hmax : data.length < 2 ^ 31 := h.fits.trans_lt (by decide)
  have hds : DIRENTSIZE = 16 := rfl
  have hread : readiLen data.length (DIRENTSIZE * m) DIRENTSIZE = some DIRENTSIZE := by
    unfold readiLen
    rw [hds] at hlen ⊢
    rw [if_neg (by omega), if_neg (by omega)]
  unfold arrayReadDirent arrayRead
  rw [hread]
  exact if_pos rfl

/-- The test of `dirlookup` on an entry. -/
lemma matches_iff : direntInum (entry data m) ≠ 0 ∧
    namecmp (cstr name) (direntName (entry data m)) = 0 ↔
      inumAt data m ≠ 0 ∧ nameAt data m = key name := by
  rw [direntName_eq, namecmp_eq_zero_iff]
  exact and_congr_right fun _ => eq_comm

/-- The loop of `dirlookup` finds the first entry in use with the name. -/
lemma IsDir.dirlookupLoop (h : IsDir data) (fuel : Nat) : ∀ {m : Nat}, entries data - m < fuel →
    (∃ m', InUse data m' ∧ nameAt data m' = key name ∧
      arrayDirlookupLoop data name (DIRENTSIZE * m) fuel =
        .ok (some (inumAt data m', DIRENTSIZE * m'))) ∨
    arrayDirlookupLoop data name (DIRENTSIZE * m) fuel = .ok none ∧
      ∀ m' ≥ m, InUse data m' → nameAt data m' ≠ key name := by
  induction fuel with
  | zero => exact fun hf => absurd hf (Nat.not_lt_zero _)
  | succ fuel ih =>
    intro m hf
    unfold arrayDirlookupLoop
    by_cases hm : m < entries data
    · rw [if_pos (h.lt_iff.mpr hm), h.readDirent hm]
      dsimp only
      split_ifs with hc
      · rw [matches_iff] at hc
        exact .inl ⟨m, ⟨hm, hc.1⟩, hc.2, rfl⟩
      · rw [matches_iff] at hc
        rw [show DIRENTSIZE * m + DIRENTSIZE = DIRENTSIZE * (m + 1) from rfl]
        refine (ih (by omega)).imp_right fun hnone => ⟨hnone.1, fun m' hm' hu hn => ?_⟩
        rcases Nat.eq_or_lt_of_le hm' with rfl | hlt
        · exact hc ⟨hu.2, hn⟩
        · exact hnone.2 m' hlt hu hn
    · rw [if_neg (h.lt_iff.not.mpr hm)]
      exact .inr ⟨rfl, fun m' hm' hu => absurd (hu.1.trans_le (Nat.le_of_not_lt hm))
        (Nat.not_lt.mpr hm')⟩

lemma IsDir.dirlookup (h : IsDir data) (name : List Byte) :
    (∃ m, InUse data m ∧ nameAt data m = key name ∧
      arrayDirlookup data name = .ok (some (inumAt data m, DIRENTSIZE * m))) ∨
    arrayDirlookup data name = .ok none ∧ ∀ m, InUse data m → nameAt data m ≠ key name := by
  have hle : entries data ≤ data.length := Nat.div_le_self _ _
  refine (h.dirlookupLoop (m := 0) (data.length + 1) (by omega)).imp_right fun hnone => ?_
  exact ⟨hnone.1, fun m => hnone.2 m (Nat.zero_le m)⟩

/-- The search of `dirlink` ends at an entry not in use or at the end. -/
lemma IsDir.dirlinkLoop (h : IsDir data) (fuel : Nat) : ∀ {m : Nat}, m ≤ entries data →
    entries data - m < fuel → (∀ j < m, inumAt data j ≠ 0) →
    ∃ m', arrayDirlinkLoop data (DIRENTSIZE * m) fuel = .ok (DIRENTSIZE * m') ∧
      m' ≤ entries data ∧ ¬ InUse data m' ∧ ∀ j < m', inumAt data j ≠ 0 := by
  induction fuel with
  | zero => exact fun _ hf => absurd hf (Nat.not_lt_zero _)
  | succ fuel ih =>
    intro m hle hf hbelow
    unfold arrayDirlinkLoop
    by_cases hm : m < entries data
    · rw [if_pos (h.lt_iff.mpr hm), h.readDirent hm]
      dsimp only
      split_ifs with hc
      · exact ⟨m, rfl, hle, fun hu => hu.2 hc, hbelow⟩
      · refine ih (m := m + 1) hm (by omega) fun j hj => ?_
        rcases Nat.eq_or_lt_of_le (Nat.le_of_lt_succ hj) with rfl | hlt
        · exact hc
        · exact hbelow j hlt
    · rw [if_neg (h.lt_iff.not.mpr hm)]
      exact ⟨m, rfl, hle, fun hu => hm hu.1, hbelow⟩

/-! ### Writing an entry -/

/-- The directory with the `m`th entry set to `de`. -/
def setEntry (data : List Byte) (m : Nat) (de : List Byte) : List Byte :=
  writeBytes data (DIRENTSIZE * m) de

variable {de : List Byte}

lemma IsDir.offset_le (h : IsDir data) (hm : m ≤ entries data) :
    DIRENTSIZE * m ≤ data.length := by
  rw [h.length_eq]
  exact Nat.mul_le_mul_left _ hm

lemma IsDir.entry_setEntry (h : IsDir data) (hm : m ≤ entries data) (hde : de.length = DIRENTSIZE) :
    entry (setEntry data m de) m' = if m' = m then de else entry data m' := by
  have hoff := h.offset_le hm
  unfold entry setEntry
  split_ifs with he
  · rw [he]
    conv_lhs => rw [← hde]
    exact take_drop_writeBytes_self (hde.symm ▸ hoff)
  · rcases Nat.lt_or_gt_of_ne he with hlt | hgt
    · exact take_drop_writeBytes_below hoff (Nat.mul_le_mul_left DIRENTSIZE hlt)
    · rw [drop_writeBytes_above hoff (hde.symm ▸ Nat.mul_le_mul_left DIRENTSIZE hgt)]

lemma IsDir.entries_setEntry (h : IsDir data) (hm : m ≤ entries data)
    (hde : de.length = DIRENTSIZE) :
    entries (setEntry data m de) = max (entries data) (m + 1) := by
  have hlen : (setEntry data m de).length = _ := length_writeBytes (h.offset_le hm)
  have heq := h.length_eq
  unfold entries at *
  rw [hlen, hde]
  have hds : DIRENTSIZE = 16 := rfl
  rw [hds] at heq ⊢
  omega

/-- `writei` of an entry fails only where the directory has its largest size. -/
lemma IsDir.writeDirent (h : IsDir data) (hm : m ≤ entries data) (hde : de.length = DIRENTSIZE)
    {e : Panic} :
    arrayWriteDirent data (DIRENTSIZE * m) de e = .ok (0, setEntry data m de) ∧
      IsDir (setEntry data m de) ∨
    arrayWriteDirent data (DIRENTSIZE * m) de e = .error e ∧ m = entries data ∧
      MAXFILE * BSIZE < data.length + DIRENTSIZE := by
  have hoff := h.offset_le hm
  have hlen := h.length_eq
  have hmax := h.fits
  have hbig : MAXFILE * BSIZE < 2 ^ 31 := by decide
  have hds : DIRENTSIZE = 16 := rfl
  unfold arrayWriteDirent
  by_cases hfit : DIRENTSIZE * m + de.length ≤ MAXFILE * BSIZE
  · left
    rw [arrayWrite_of_le hoff hfit, hde]
    refine ⟨if_pos rfl, ?_, ?_⟩
    · have hl : (setEntry data m de).length = _ := length_writeBytes hoff
      rw [hl, hde, hlen]
      rcases max_choice (DIRENTSIZE * entries data) (DIRENTSIZE * m + DIRENTSIZE) with hc | hc
      · rw [hc]
        exact Dvd.intro _ rfl
      · rw [hc]
        exact Dvd.intro (m + 1) rfl
    · exact (length_writeBytes hoff).trans_le (max_le hmax hfit)
  · right
    rw [hde] at hfit
    have hw : arrayWrite data (DIRENTSIZE * m) de = (-1, data) := by
      unfold arrayWrite
      rw [hde, Nat.mod_eq_of_lt (by omega), if_neg (by omega), if_pos (by omega)]
    rw [hw]
    rw [hds] at hfit hlen ⊢
    exact ⟨if_neg (by simp), by omega, by omega⟩

end Loops

/-! ### The map -/

/-- The entries in use have different names, and map them to numbers as `M` does. -/
structure IsMap (data : List Byte) (M : List Byte → Option Nat) : Prop extends IsDir data where
  distinct : ∀ m m', InUse data m → InUse data m' → nameAt data m = nameAt data m' → m = m'
  binds : ∀ k n, M k = some n ↔ ∃ m, InUse data m ∧ nameAt data m = k ∧ inumAt data m = n

section Map

variable {data data' name name' de : List Byte} {M : List Byte → Option Nat} {m m' n inum : Nat}
  {r : Int}

/-- The entry of a name that has one. -/
lemma IsMap.dirlookup_eq (h : IsMap data M) (hu : InUse data m) (hn : nameAt data m = key name) :
    arrayDirlookup data name = .ok (some (inumAt data m, DIRENTSIZE * m)) := by
  rcases h.dirlookup name with ⟨m', hu', hn', hr⟩ | ⟨-, hnone⟩
  · rw [hr, h.distinct m' m hu' hu (hn'.trans hn.symm)]
  · exact absurd hn (hnone m hu)

lemma IsMap.dirlookup_none (h : IsMap data M)
    (hnone : ∀ m, InUse data m → nameAt data m ≠ key name) :
    arrayDirlookup data name = .ok none := by
  rcases h.dirlookup name with ⟨m', hu', hn', -⟩ | ⟨hr, -⟩
  · exact absurd hn' (hnone m' hu')
  · exact hr

/-- `dirlookup` finds what the map has. -/
lemma IsMap.dirlookup_map (h : IsMap data M) (name : List Byte) :
    (M (key name) = none ∧ arrayDirlookup data name = .ok none) ∨
    ∃ m, InUse data m ∧ nameAt data m = key name ∧ M (key name) = some (inumAt data m) ∧
      arrayDirlookup data name = .ok (some (inumAt data m, DIRENTSIZE * m)) := by
  rcases h.dirlookup name with ⟨m, hu, hn, hr⟩ | ⟨hr, hnone⟩
  · exact .inr ⟨m, hu, hn, (h.binds _ _).mpr ⟨m, hu, hn, rfl⟩, hr⟩
  · refine .inl ⟨?_, hr⟩
    cases hM : M (key name) with
    | none => rfl
    | some n =>
      obtain ⟨m, hu, hn, -⟩ := (h.binds _ _).mp hM
      exact absurd hn (hnone m hu)

section Set

variable (h : IsMap data M) (hm : m ≤ entries data) (hde : de.length = DIRENTSIZE)
include h hm hde

/-- The entries other than the one set stay. -/
lemma IsMap.inUse_set (hne : m' ≠ m) : InUse (setEntry data m de) m' ↔ InUse data m' := by
  unfold InUse inumAt
  rw [h.entry_setEntry hm hde, if_neg hne, h.entries_setEntry hm hde]
  constructor
  · rintro ⟨h1, h2⟩
    exact ⟨by omega, h2⟩
  · rintro ⟨h1, h2⟩
    exact ⟨by omega, h2⟩

lemma IsMap.nameAt_set (hne : m' ≠ m) : nameAt (setEntry data m de) m' = nameAt data m' := by
  unfold nameAt
  rw [h.entry_setEntry hm hde, if_neg hne]

lemma IsMap.inumAt_set (hne : m' ≠ m) : inumAt (setEntry data m de) m' = inumAt data m' := by
  unfold inumAt
  rw [h.entry_setEntry hm hde, if_neg hne]

lemma IsMap.entry_set_self : entry (setEntry data m de) m = de := by
  rw [h.entry_setEntry hm hde, if_pos rfl]

/-- A name other than those of the old and the new entry is looked up as before. -/
lemma IsMap.dirlookup_set {M' : List Byte → Option Nat} (h' : IsMap (setEntry data m de) M')
    (hold : InUse data m → nameAt data m ≠ key name')
    (hnew : InUse (setEntry data m de) m → key (de.drop 2) ≠ key name') :
    arrayDirlookup (setEntry data m de) name' = arrayDirlookup data name' := by
  rcases h.dirlookup name' with ⟨m', hu, hn, hr⟩ | ⟨hr, hnone⟩
  · have hne : m' ≠ m := by
      rintro rfl
      exact hold hu hn
    rw [hr, h'.dirlookup_eq ((h.inUse_set hm hde hne).mpr hu)
      ((h.nameAt_set hm hde hne).trans hn), h.inumAt_set hm hde hne]
  · rw [hr]
    refine h'.dirlookup_none fun m' hu' => ?_
    by_cases hne : m' = m
    · subst hne
      unfold nameAt
      rw [h.entry_set_self hm hde]
      exact hnew hu'
    · rw [h.nameAt_set hm hde hne]
      exact hnone m' ((h.inUse_set hm hde hne).mp hu')

end Set

/-- A name is linked in an entry not in use. -/
lemma IsMap.link (h : IsMap data M) (hm : m ≤ entries data) (hfree : ¬ InUse data m)
    (hM : M (key name) = none) (hpos : 1 ≤ inum) (hmax : inum < 2 ^ 16)
    (hdir : IsDir (setEntry data m (mkDirent inum name))) :
    IsMap (setEntry data m (mkDirent inum name)) (Function.update M (key name) (some inum)) := by
  have hde : (mkDirent inum name).length = DIRENTSIZE := Mkfs.length_mkDirent ..
  have hinum : inumAt (setEntry data m (mkDirent inum name)) m = inum := by
    unfold inumAt
    rw [h.entry_set_self hm hde, direntInum_mkDirent hmax]
  have hname : nameAt (setEntry data m (mkDirent inum name)) m = key name := by
    unfold nameAt
    rw [h.entry_set_self hm hde, key_mkDirent]
  have hnew : InUse (setEntry data m (mkDirent inum name)) m := by
    refine ⟨?_, by rw [hinum]; omega⟩
    rw [h.entries_setEntry hm hde]
    omega
  -- no other entry has the name
  have hother : ∀ m', InUse data m' → nameAt data m' ≠ key name := by
    intro m' hu hn
    have := (h.binds _ _).mpr ⟨m', hu, hn, rfl⟩
    rw [hM] at this
    cases this
  refine ⟨hdir, fun m1 m2 h1 h2 heq => ?_, fun k n => ?_⟩
  · by_cases e1 : m1 = m <;> by_cases e2 : m2 = m
    · rw [e1, e2]
    · rw [e1, hname, h.nameAt_set hm hde e2] at heq
      exact absurd heq.symm (hother m2 ((h.inUse_set hm hde e2).mp h2))
    · rw [e2, hname, h.nameAt_set hm hde e1] at heq
      exact absurd heq (hother m1 ((h.inUse_set hm hde e1).mp h1))
    · rw [h.nameAt_set hm hde e1, h.nameAt_set hm hde e2] at heq
      exact h.distinct m1 m2 ((h.inUse_set hm hde e1).mp h1) ((h.inUse_set hm hde e2).mp h2) heq
  · by_cases hk : k = key name
    · subst hk
      rw [Function.update_self, Option.some.injEq]
      constructor
      · rintro rfl
        exact ⟨m, hnew, hname, hinum⟩
      · rintro ⟨m', hu, hn, rfl⟩
        by_cases e : m' = m
        · rw [e, hinum]
        · rw [h.nameAt_set hm hde e] at hn
          exact absurd hn (hother m' ((h.inUse_set hm hde e).mp hu))
    · rw [Function.update_of_ne hk, h.binds]
      constructor
      · rintro ⟨m', hu, hn, hi⟩
        have e : m' ≠ m := by
          rintro rfl
          exact hfree hu
        exact ⟨m', (h.inUse_set hm hde e).mpr hu, (h.nameAt_set hm hde e).trans hn,
          (h.inumAt_set hm hde e).trans hi⟩
      · rintro ⟨m', hu, hn, hi⟩
        have e : m' ≠ m := by
          rintro rfl
          exact hk (hn.symm.trans hname)
        rw [h.nameAt_set hm hde e] at hn
        rw [h.inumAt_set hm hde e] at hi
        exact ⟨m', (h.inUse_set hm hde e).mp hu, hn, hi⟩

/-- The entry of a name is cleared. -/
lemma IsMap.clear (h : IsMap data M) (hu : InUse data m) (hn : nameAt data m = key name)
    (hdir : IsDir (setEntry data m (List.replicate DIRENTSIZE 0))) :
    ¬ InUse (setEntry data m (List.replicate DIRENTSIZE 0)) m ∧
    IsMap (setEntry data m (List.replicate DIRENTSIZE 0))
      (Function.update M (key name) none) := by
  have hm := Nat.le_of_lt hu.1
  have hde : (List.replicate DIRENTSIZE (0 : Byte)).length = DIRENTSIZE := length_replicate
  have hcleared : ¬ InUse (setEntry data m (List.replicate DIRENTSIZE 0)) m := by
    rintro ⟨-, h0⟩
    unfold inumAt at h0
    rw [h.entry_set_self hm hde] at h0
    exact h0 rfl
  have hne : ∀ m', InUse (setEntry data m (List.replicate DIRENTSIZE 0)) m' → m' ≠ m := by
    rintro m' hu' rfl
    exact hcleared hu'
  refine ⟨hcleared, hdir, fun m1 m2 h1 h2 heq => ?_, fun k n => ?_⟩
  · have e1 := hne m1 h1
    have e2 := hne m2 h2
    rw [h.nameAt_set hm hde e1, h.nameAt_set hm hde e2] at heq
    exact h.distinct m1 m2 ((h.inUse_set hm hde e1).mp h1) ((h.inUse_set hm hde e2).mp h2) heq
  · by_cases hk : k = key name
    · subst hk
      rw [Function.update_self]
      refine ⟨fun hf => absurd hf (by simp), ?_⟩
      rintro ⟨m', hu', hn', -⟩
      have e := hne m' hu'
      rw [h.nameAt_set hm hde e] at hn'
      exact absurd (h.distinct m' m ((h.inUse_set hm hde e).mp hu') hu (hn'.trans hn.symm)) e
    · rw [Function.update_of_ne hk, h.binds]
      constructor
      · rintro ⟨m', hu', hn', hi⟩
        have e : m' ≠ m := by
          rintro rfl
          exact hk (hn'.symm.trans hn)
        exact ⟨m', (h.inUse_set hm hde e).mpr hu', (h.nameAt_set hm hde e).trans hn',
          (h.inumAt_set hm hde e).trans hi⟩
      · rintro ⟨m', hu', hn', hi⟩
        have e := hne m' hu'
        rw [h.nameAt_set hm hde e] at hn'
        rw [h.inumAt_set hm hde e] at hi
        exact ⟨m', (h.inUse_set hm hde e).mp hu', hn', hi⟩

/-! ### The operations -/

/-- `dirlink` fails where the name is present; else it binds the name and no other, unless the
directory is full. -/
lemma IsMap.dirlink (h : IsMap data M) (name : List Byte) (hpos : 1 ≤ inum) (hmax : inum < 2 ^ 16) :
    (M (key name) ≠ none ∧ arrayDirlink data name inum = .ok (-1, data)) ∨
    M (key name) = none ∧
      ((∃ data', arrayDirlink data name inum = .ok (0, data') ∧
        IsMap data' (Function.update M (key name) (some inum)) ∧
        ∀ name', key name' ≠ key name →
          arrayDirlookup data' name' = arrayDirlookup data name') ∨
      arrayDirlink data name inum = .error .dirlink ∧
        (∀ m < entries data, inumAt data m ≠ 0) ∧
        MAXFILE * BSIZE < data.length + DIRENTSIZE) := by
  unfold arrayDirlink
  rcases h.dirlookup_map name with ⟨hM, hr⟩ | ⟨m, -, -, hM, hr⟩
  · right
    refine ⟨hM, ?_⟩
    have hle : entries data ≤ data.length := Nat.div_le_self _ _
    obtain ⟨m, hloop, hm, hfree, hbelow⟩ := h.dirlinkLoop (m := 0) (data.length + 1)
      (Nat.zero_le _) (by omega) fun j hj => absurd hj (Nat.not_lt_zero j)
    have hde : (mkDirent inum name).length = DIRENTSIZE := Mkfs.length_mkDirent ..
    rw [Nat.mul_zero] at hloop
    rw [hr]
    dsimp only
    rw [hloop]
    dsimp only
    rcases h.writeDirent hm hde with ⟨hw, hdir⟩ | ⟨hw, he, hfull⟩
    · left
      have hmap := h.link hm hfree hM hpos hmax hdir
      refine ⟨_, hw, hmap, fun name' hne => ?_⟩
      refine h.dirlookup_set hm hde hmap (fun hu => absurd hu hfree) fun _ => ?_
      rw [key_mkDirent]
      exact hne.symm
    · exact .inr ⟨hw, fun j hj => hbelow j (he ▸ hj), hfull⟩
  · left
    rw [hr]
    exact ⟨by rw [hM]; simp, rfl⟩

/-- The clearing of an entry unbinds the name and no other. -/
lemma IsMap.unlink (h : IsMap data M) (name : List Byte) :
    (M (key name) = none ∧ arrayUnlink data name = .ok (-1, data)) ∨
    M (key name) ≠ none ∧ ∃ data', arrayUnlink data name = .ok (0, data') ∧
      IsMap data' (Function.update M (key name) none) ∧
      ∀ name', key name' ≠ key name → arrayDirlookup data' name' = arrayDirlookup data name' := by
  unfold arrayUnlink
  rcases h.dirlookup_map name with ⟨hM, hr⟩ | ⟨m, hu, hn, hM, hr⟩
  · left
    rw [hr]
    exact ⟨hM, rfl⟩
  · right
    have hde : (List.replicate DIRENTSIZE (0 : Byte)).length = DIRENTSIZE := length_replicate
    rw [hr]
    dsimp only
    refine ⟨by rw [hM]; simp, ?_⟩
    rcases h.writeDirent (Nat.le_of_lt hu.1) hde (e := .unlinkWritei) with ⟨hw, hdir⟩ | ⟨-, he, -⟩
    · obtain ⟨hcleared, hmap⟩ := h.clear hu hn hdir
      refine ⟨_, hw, hmap, fun name' hne => ?_⟩
      refine h.dirlookup_set (Nat.le_of_lt hu.1) hde hmap (fun _ he => hne ?_)
        fun hu' => absurd hu' hcleared
      exact he.symm.trans hn
    · exact absurd hu.1 (by omega)

end Map

/-! ### Every sequence of operations -/

/-- The directories that `dirlink` and the clearing of entries build from an empty one, with the
inode number linked last for each name and not cleared since. -/
inductive DirRun : List Byte → (List Byte → Option Nat) → Prop
  | empty : DirRun [] fun _ => none
  | link {data data' : List Byte} {M : List Byte → Option Nat} {inum : Nat} {r : Int}
      (h : DirRun data M) (name : List Byte) (hpos : 1 ≤ inum) (hmax : inum ≤ 65535)
      (hr : arrayDirlink data name inum = .ok (r, data')) :
      DirRun data' (if r = 0 then Function.update M (key name) (some inum) else M)
  | unlink {data data' : List Byte} {M : List Byte → Option Nat} {r : Int} (h : DirRun data M)
      (name : List Byte) (hr : arrayUnlink data name = .ok (r, data')) :
      DirRun data' (if r = 0 then Function.update M (key name) none else M)

/-- The directory is the finite map `M`. -/
structure FiniteMap (data : List Byte) (M : List Byte → Option Nat) : Prop where
  distinct : ∀ m m', InUse data m → InUse data m' → nameAt data m = nameAt data m' → m = m'
  absent : ∀ name, M (key name) = none → arrayDirlookup data name = .ok none
  present : ∀ name inum, M (key name) = some inum → ∃ m, InUse data m ∧
    nameAt data m = key name ∧ inumAt data m = inum ∧
    arrayDirlookup data name = .ok (some (inum, DIRENTSIZE * m))
  /-- `dirlink` returns -1 exactly where the name is present, and 0 where it is not. -/
  dirlink : ∀ name inum r data', 1 ≤ inum → inum ≤ 65535 →
    arrayDirlink data name inum = .ok (r, data') →
    (r = -1 ↔ M (key name) ≠ none) ∧ (r = 0 ↔ M (key name) = none) ∧ (r = -1 → data' = data) ∧
    ∀ name', key name' ≠ key name → arrayDirlookup data' name' = arrayDirlookup data name'
  /-- `dirlink` panics only if there is no room for another entry. -/
  full : ∀ name inum e, 1 ≤ inum → inum ≤ 65535 → arrayDirlink data name inum = .error e →
    (∀ m < entries data, inumAt data m ≠ 0) ∧ MAXFILE * BSIZE < data.length + DIRENTSIZE
  unlink : ∀ name, ∃ r data', arrayUnlink data name = .ok (r, data') ∧
    (r = 0 ↔ M (key name) ≠ none) ∧
    ∀ name', key name' ≠ key name → arrayDirlookup data' name' = arrayDirlookup data name'

section Run

variable {data : List Byte} {M : List Byte → Option Nat}

lemma DirRun.isMap (h : DirRun data M) : IsMap data M := by
  induction h with
  | empty =>
    have hnone : ∀ m, ¬ InUse [] m := fun m hu => absurd hu.1 (Nat.not_lt_zero m)
    refine ⟨⟨Dvd.intro 0 rfl, Nat.zero_le _⟩, fun m _ hu => absurd hu (hnone m), fun k n => ?_⟩
    refine ⟨fun hf => absurd hf (by simp), ?_⟩
    rintro ⟨m, hu, -⟩
    exact absurd hu (hnone m)
  | link h name hpos hmax hr ih =>
    rcases ih.dirlink name hpos (Nat.lt_succ_of_le hmax) with
      ⟨-, he⟩ | ⟨-, ⟨data1, he, hmap, -⟩ | ⟨he, -⟩⟩
    · obtain ⟨rfl, rfl⟩ := Prod.mk.inj (Except.ok.inj (he.symm.trans hr))
      exact ih
    · obtain ⟨rfl, rfl⟩ := Prod.mk.inj (Except.ok.inj (he.symm.trans hr))
      exact hmap
    · rw [he] at hr
      cases hr
  | unlink h name hr ih =>
    rcases ih.unlink name with ⟨-, he⟩ | ⟨-, data1, he, hmap, -⟩
    · obtain ⟨rfl, rfl⟩ := Prod.mk.inj (Except.ok.inj (he.symm.trans hr))
      exact ih
    · obtain ⟨rfl, rfl⟩ := Prod.mk.inj (Except.ok.inj (he.symm.trans hr))
      exact hmap

/-- A directory that `dirlink` and the clearing of entries have built is a finite map. -/
theorem directory_is_finite_map (h : DirRun data M) : FiniteMap data M := by
  have hmap := h.isMap
  refine ⟨hmap.distinct, fun name hM => ?_, fun name inum hM => ?_,
    fun name inum r data' hpos hmax hr => ?_, fun name inum e hpos hmax hr => ?_, fun name => ?_⟩
  · rcases hmap.dirlookup_map name with ⟨-, hr⟩ | ⟨m, -, -, hM', -⟩
    · exact hr
    · rw [hM] at hM'
      cases hM'
  · rcases hmap.dirlookup_map name with ⟨hM', -⟩ | ⟨m, hu, hn, hM', hr⟩
    · rw [hM] at hM'
      cases hM'
    · obtain rfl := Option.some.inj (hM.symm.trans hM')
      exact ⟨m, hu, hn, rfl, hr⟩
  · rcases hmap.dirlink name hpos (Nat.lt_succ_of_le hmax) with
      ⟨hM, he⟩ | ⟨hM, ⟨data1, he, -, hother⟩ | ⟨he, -⟩⟩
    · obtain ⟨rfl, rfl⟩ := Prod.mk.inj (Except.ok.inj (he.symm.trans hr))
      simp [hM]
    · obtain ⟨rfl, rfl⟩ := Prod.mk.inj (Except.ok.inj (he.symm.trans hr))
      simpa [hM] using hother
    · rw [he] at hr
      cases hr
  · rcases hmap.dirlink name hpos (Nat.lt_succ_of_le hmax) with
      ⟨-, he⟩ | ⟨-, ⟨data1, he, -⟩ | ⟨-, hfull⟩⟩
    · rw [he] at hr
      cases hr
    · rw [he] at hr
      cases hr
    · exact hfull
  · rcases hmap.unlink name with ⟨hM, he⟩ | ⟨hM, data1, he, -, hother⟩
    · exact ⟨-1, data, he, by simp [hM], fun _ _ => rfl⟩
    · exact ⟨0, data1, he, by simp [hM], hother⟩

/-- Two names are linked and the first of them is cleared. -/
theorem directory_is_finite_map_three : ∃ data M, DirRun data M ∧ FiniteMap data M ∧
    M [97] = none ∧ M [98] = some 9 := by
  have hone := DirRun.link .empty [97] (by decide : 1 ≤ 5) (by decide) rfl
  have htwo := DirRun.link hone [98] (by decide : 1 ≤ 9) (by decide) rfl
  have hrun := DirRun.unlink htwo [97] rfl
  exact ⟨_, _, hrun, directory_is_finite_map hrun, by decide, by decide⟩

end Run

/-! ### The kernel's functions -/

/-- A result computed on the array, as a program. -/
def ofArray {α : Type} : Except Panic α → K α
  | .error e => .panic e
  | .ok a => pure a

/-- The end of `dirlookup`: the inode of the entry found. -/
def igetEntry (dev : Nat) : Option (Nat × Nat) → K (Option (Nat × Nat))
  | none => pure none
  | some (inum, off) => do
    let ip ← iget dev inum
    pure (some (ip, off))

section Kernel

variable {s : State} {i k off inum : Nat} {name : List Byte}

lemma FsOk.run_readDirent (h : FsOk s) (hc : Caches s k i) (ht : (s.inode k).type = T_DIR)
    (hoff : off < 2 ^ 32) (e : Panic) : (readDirent k off e).run s =
      (ofArray (arrayReadDirent (node s.sector i).data off e)).run s := by
  have hr := h.run_readi (p := 0) hc (ht ▸ by decide) hoff (by decide : DIRENTSIZE < 2 ^ 32)
  refine run_bind_ok hr ?_
  unfold arrayReadDirent
  rcases arrayRead (node s.sector i).data off DIRENTSIZE with ⟨r, de⟩
  dsimp only
  split_ifs <;> rfl

lemma FsOk.run_dirlookupLoop (h : FsOk s) (hc : Caches s k i) (ht : (s.inode k).type = T_DIR)
    (off fuel : Nat) : (dirlookupLoop k name off fuel).run s =
      (ofArray (arrayDirlookupLoop (node s.sector i).data name off fuel) >>=
        igetEntry (s.inode k).dev).run s := by
  have hlen := h.length_data hc
  have hmax : (s.inode k).size < 2 ^ 31 := (h.pending hc).size.trans_lt (by decide)
  induction fuel generalizing off with
  | zero => rfl
  | succ fuel ih =>
    unfold dirlookupLoop arrayDirlookupLoop
    refine run_bind_ok (run_read _) ?_
    rw [hlen]
    by_cases hlt : off < (s.inode k).size
    · rw [if_pos hlt, if_pos hlt, run_bind, h.run_readDirent hc ht (by omega)]
      cases arrayReadDirent (node s.sector i).data off .dirlinkRead with
      | error e => rfl
      | ok de =>
        change Prog.run (if _ then _ else _) s = _
        dsimp only
        split_ifs with hm
        · rfl
        · exact ih _
    · rw [if_neg hlt, if_neg hlt]
      rfl

/-- On a consistent file system `dirlookup` is the array operation, and then gets the inode. -/
lemma FsOk.run_dirlookup (h : FsOk s) (hc : Caches s k i) (ht : (s.inode k).type = T_DIR) :
    (dirlookup k name).run s =
      (ofArray (arrayDirlookup (node s.sector i).data name) >>= igetEntry
        (s.inode k).dev).run s := by
  refine run_bind_ok (run_read _) ?_
  rw [if_neg (not_not.mpr ht), h.run_dirlookupLoop hc ht, arrayDirlookup, h.length_data hc]

lemma FsOk.run_dirlinkLoop (h : FsOk s) (hc : Caches s k i) (ht : (s.inode k).type = T_DIR)
    (off fuel : Nat) : (dirlinkLoop k off fuel).run s =
      (ofArray (arrayDirlinkLoop (node s.sector i).data off fuel)).run s := by
  have hlen := h.length_data hc
  have hmax : (s.inode k).size < 2 ^ 31 := (h.pending hc).size.trans_lt (by decide)
  induction fuel generalizing off with
  | zero => rfl
  | succ fuel ih =>
    unfold dirlinkLoop arrayDirlinkLoop
    refine run_bind_ok (run_read _) ?_
    rw [hlen]
    by_cases hlt : off < (s.inode k).size
    · rw [if_pos hlt, if_pos hlt, run_bind, h.run_readDirent hc ht (by omega)]
      cases arrayReadDirent (node s.sector i).data off .dirlinkRead with
      | error e => rfl
      | ok de =>
        change Prog.run (if _ then _ else _) s = _
        dsimp only
        split_ifs with hm
        · rfl
        · exact ih _
    · rw [if_neg hlt, if_neg hlt]
      rfl

/-- On a consistent file system `dirlink` of a name that is absent is the array operation. -/
lemma FsOk.wp_dirlink {E : Option Panic → State → Prop} (h : FsOk s) (hc : Caches s k i)
    (ht : (s.inode k).type = T_DIR)
    (hnone : arrayDirlookup (node s.sector i).data name = .ok none)
    (hloop : arrayDirlinkLoop (node s.sector i).data 0 ((s.inode k).size + 1) = .ok off)
    (hoff : off ≤ (s.inode k).size) (hmax : off + DIRENTSIZE ≤ SMALLFILE * BSIZE)
    (hfree : (s.inode k).size < off + DIRENTSIZE →
      nblk off DIRENTSIZE + indMissing s k ≤ (freeBlocks s.sector).card)
    (hE : Room s (indCost s k + 2 * nblk off DIRENTSIZE + 1) ∨ ∀ e s', E e s') :
    (dirlink k name inum).wp (fun r s' => FsOk s' ∧
      arrayDirlink (node s.sector i).data name inum = .ok (r, (node s'.sector i).data)) E s := by
  have hde : (mkDirent inum name).length = DIRENTSIZE := Mkfs.length_mkDirent ..
  have hrun : (dirlookup k name).run s = .ok none s := by
    rw [h.run_dirlookup hc ht, hnone]
    rfl
  have hsearch : (dirlinkLoop k 0 ((s.inode k).size + 1)).run s = .ok off s := by
    rw [h.run_dirlinkLoop hc ht, hloop]
    rfl
  have harray : arrayDirlink (node s.sector i).data name inum =
      arrayWriteDirent (node s.sector i).data off (mkDirent inum name) .dirlink := by
    unfold arrayDirlink
    rw [hnone, h.length_data hc]
    dsimp only
    rw [hloop]
  refine wp_bind.mpr (wp_of_run hrun (wp_bind.mpr (wp_of_run (run_read _) ?_)))
  refine wp_bind.mpr (wp_of_run hsearch ?_)
  refine wp_call (wp_writei_array h hc (ht ▸ by decide) hoff (hde ▸ hmax) (hde ▸ hfree)
    (hde ▸ hE)) fun r s' hw => ?_
  obtain ⟨hok, heq⟩ := hw
  have hfit : off + DIRENTSIZE ≤ MAXFILE * BSIZE := hmax.trans (by decide)
  have hwrite := arrayWrite_of_le (h.length_data hc ▸ hoff) (hde.symm ▸ hfit)
  rw [hwrite, hde, Prod.mk.injEq] at heq
  rw [harray, if_pos heq.1]
  unfold arrayWriteDirent
  rw [hwrite, hde, if_pos rfl]
  exact ⟨hok, by rw [heq.2]⟩

end Kernel

end Xv6
