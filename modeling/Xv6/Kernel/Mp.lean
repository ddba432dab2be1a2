import Xv6.Kernel.String

/-!
# The multiprocessor tables: `mp.c`

`mpinit` looks for the tables the BIOS has left in memory and counts the processors in them.
Pointers are 32-bit numbers that wrap around. Programming the IMCR is left out. -/

namespace Xv6.Kernel

open Lib

def NCPU : Nat := 8

/-- Entry types. -/
def MPPROC : Byte := 0
def MPBUS : Byte := 1
def MPIOAPIC : Byte := 2
def MPIOINTR : Byte := 3
def MPLINTR : Byte := 4

/-- This processor is the bootstrap processor. -/
def MPBOOT : Byte := 2

/-- `p2v`. -/
def p2v (a : BitVec 32) : BitVec 32 := a + 0x80000000

/-! ### Looking for the tables -/

section Search

variable (mem : Memory)

/-- The `k`-byte number at `p`, low byte first. -/
def word (p : BitVec 32) : Nat → Nat
  | 0 => 0
  | k + 1 => (mem p).toNat + 256 * word (p + 1) k

/-- `memcmp(p, signature, 4) == 0`. -/
def hasSignature (p : BitVec 32) : List Byte → Bool
  | [] => true
  | c :: cs => mem p == c && hasSignature (p + 1) cs

/-- The sum of `len` bytes, as a `uchar`. -/
def sum (addr : BitVec 32) : (len : Nat) → Byte
  | 0 => 0
  | len + 1 => mem addr + sum (addr + 1) len

/-- `"_MP_"`. -/
def mpSignature : List Byte := [0x5f, 0x4d, 0x50, 0x5f]

/-- `"PCMP"`. -/
def confSignature : List Byte := [0x50, 0x43, 0x4d, 0x50]

/-- `sizeof(struct mp)`. -/
def sizeofMp : Nat := 16

/-- `sizeof(struct mpconf)`. -/
def sizeofMpconf : BitVec 32 := 44

/-- The loop of `mpsearch1`, over at most `n` places. -/
def mpsearch1Loop (e : BitVec 32) : (n : Nat) → (p : BitVec 32) → Option (BitVec 32)
  | 0, _ => none
  | n + 1, p =>
    if p < e then
      if hasSignature mem p mpSignature && sum mem p sizeofMp == 0 then some p
      else mpsearch1Loop e n (p + BitVec.ofNat 32 sizeofMp)
    else none

/-- Look for an MP structure in the `len` bytes at `a`. -/
def mpsearch1 (a : BitVec 32) (len : Nat) : Option (BitVec 32) :=
  mpsearch1Loop mem (p2v a + BitVec.ofNat 32 len) len (p2v a)

/-- Search for the MP floating pointer structure. -/
def mpsearch : Option (BitVec 32) :=
  let bda := p2v 0x400
  let p := BitVec.ofNat 32 (((mem (bda + 0x0F)).toNat * 256 + (mem (bda + 0x0E)).toNat) * 16)
  let base := BitVec.ofNat 32 (((mem (bda + 0x14)).toNat * 256 + (mem (bda + 0x13)).toNat) * 1024)
  let first := if p ≠ 0 then mpsearch1 mem p 1024 else mpsearch1 mem (base - 1024) 1024
  match first with
  | some mp => some mp
  | none => mpsearch1 mem 0xF0000 0x10000

/-- `conf->length`. -/
def confLength (conf : BitVec 32) : Nat := word mem (conf + 4) 2

/-- Search for an MP configuration table. -/
def mpconfig : Option (BitVec 32) :=
  match mpsearch mem with
  | none => none
  | some mp =>
    let physaddr := BitVec.ofNat 32 (word mem (mp + 4) 4)
    let conf := p2v physaddr
    let version := mem (conf + 6)
    if physaddr = 0 then none
    else if hasSignature mem conf confSignature = false then none
    else if version ≠ 1 ∧ version ≠ 4 then none
    else if sum mem conf (confLength mem conf) ≠ 0 then none
    else some conf

end Search

/-! ### The scan -/

inductive MpFault
  /-- `cpus[ncpu]` is written, with `ncpu` not below `NCPU`. -/
  | cpus
  /-- Not in the source: the loop has been counted down. -/
  | count
  deriving DecidableEq, Repr

/-- The pointer into the table and the variables that are set from it. -/
structure Mp where
  p : BitVec 32 := 0
  /-- The `id` of each element of `cpus`. -/
  cpus : Fin NCPU → Nat := fun _ => 0
  /-- The index of the bootstrap processor. -/
  bcpu : Nat := 0
  ismp : Bool := false
  ncpu : Nat := 0
  ioapicid : Byte := 0
  lapic : BitVec 32 := 0
  deriving DecidableEq

/-- The `switch` on the type of the entry at `p`. An entry of an unknown type is not skipped. -/
def mpinitEntry (mem : Memory) (s : Mp) : Except MpFault Mp :=
  if mem s.p = MPPROC then
    let apicid := (mem (s.p + 1)).toNat
    let flags := mem (s.p + 3)
    let ismp := if s.ncpu ≠ apicid then false else s.ismp
    let bcpu := if flags &&& MPBOOT ≠ 0 then s.ncpu else s.bcpu
    if h : s.ncpu < NCPU then
      .ok { s with
        ismp, bcpu, cpus := Function.update s.cpus ⟨s.ncpu, h⟩ s.ncpu, ncpu := s.ncpu + 1,
        p := s.p + 20 }
    else
      .error .cpus
  else if mem s.p = MPIOAPIC then
    .ok { s with ioapicid := mem (s.p + 1), p := s.p + 8 }
  else if mem s.p = MPBUS ∨ mem s.p = MPIOINTR ∨ mem s.p = MPLINTR then
    .ok { s with p := s.p + 8 }
  else
    .ok { s with ismp := false }

/-- The loop over the entries, for at most `count` rounds. -/
def mpinitLoop (mem : Memory) (e : BitVec 32) : (count : Nat) → Mp → Except MpFault Mp
  | 0, _ => .error .count
  | count + 1, s =>
    if s.p < e then
      match mpinitEntry mem s with
      | .error f => .error f
      | .ok s => mpinitLoop mem e count s
    else
      .ok s

/-- The variables before the loop. -/
def Mp.start (mem : Memory) (conf : BitVec 32) : Mp :=
  { p := conf + sizeofMpconf, ismp := true, lapic := BitVec.ofNat 32 (word mem (conf + 36) 4) }

/-- The end of the table. -/
def confEnd (mem : Memory) (conf : BitVec 32) : BitVec 32 :=
  conf + BitVec.ofNat 32 (confLength mem conf)

/-- `mpinit`, for at most `count` rounds of its loop. -/
def mpinit (mem : Memory) (count : Nat) : Except MpFault Mp :=
  match mpconfig mem with
  | none => .ok {}
  | some conf =>
    (mpinitLoop mem (confEnd mem conf) count (.start mem conf)).map fun s =>
      if s.ismp then s else { s with ncpu := 1, lapic := 0, ioapicid := 0 }

/-! ### When it ends -/

/-- The entries from `p` on, each as long as its type says, lead to the end of the table: all their
types are known, and `n` of them are processors. -/
inductive Entries (mem : Memory) (e : BitVec 32) : BitVec 32 → Nat → Prop
  | done {p : BitVec 32} (h : ¬ p < e) : Entries mem e p 0
  | proc {p : BitVec 32} {n : Nat} (h : p < e) (htype : mem p = MPPROC)
      (hrest : Entries mem e (p + 20) n) : Entries mem e p (n + 1)
  | other {p : BitVec 32} {n : Nat} (h : p < e)
      (htype : mem p ∈ [MPBUS, MPIOAPIC, MPIOINTR, MPLINTR])
      (hrest : Entries mem e (p + 8) n) : Entries mem e p n

variable {mem : Memory} {e : BitVec 32} {s s' : Mp} {n : Nat}

/-- What the `switch` does to the pointer and to the number of processors. -/
lemma mpinitEntry_cases (h : mpinitEntry mem s = .ok s') :
    (mem s.p = MPPROC ∧ s.ncpu < NCPU ∧ s'.p = s.p + 20 ∧ s'.ncpu = s.ncpu + 1) ∨
    (mem s.p ∈ [MPBUS, MPIOAPIC, MPIOINTR, MPLINTR] ∧ s'.p = s.p + 8 ∧ s'.ncpu = s.ncpu) ∨
    (s'.p = s.p ∧ s'.ncpu = s.ncpu) := by
  unfold mpinitEntry at h
  split_ifs at h with hproc hlt hioapic hother
  · cases h
    exact Or.inl ⟨hproc, hlt, rfl, rfl⟩
  · cases h
    exact Or.inr (Or.inl ⟨by simp [hioapic], rfl, rfl⟩)
  · cases h
    refine Or.inr (Or.inl ⟨?_, rfl, rfl⟩)
    rcases hother with h | h | h <;> simp [h]
  · cases h
    exact Or.inr (Or.inr ⟨rfl, rfl⟩)

lemma mpinitEntry_proc (htype : mem s.p = MPPROC) (hlt : s.ncpu < NCPU) :
    ∃ s', mpinitEntry mem s = .ok s' ∧ s'.p = s.p + 20 ∧ s'.ncpu = s.ncpu + 1 := by
  unfold mpinitEntry
  rw [if_pos htype, dif_pos hlt]
  exact ⟨_, rfl, rfl, rfl⟩

lemma mpinitEntry_other (htype : mem s.p ∈ [MPBUS, MPIOAPIC, MPIOINTR, MPLINTR]) :
    ∃ s', mpinitEntry mem s = .ok s' ∧ s'.p = s.p + 8 ∧ s'.ncpu = s.ncpu := by
  unfold mpinitEntry
  simp only [List.mem_cons, List.not_mem_nil, or_false] at htype
  rcases htype with h | h | h | h
  all_goals
    rw [h]
    exact ⟨_, rfl, rfl, rfl⟩

lemma mpinitLoop_succ (h : s.p < e) (hentry : mpinitEntry mem s = .ok s') (count : Nat) :
    mpinitLoop mem e (count + 1) s = mpinitLoop mem e count s' := by
  rw [mpinitLoop, if_pos h, hentry]

lemma Entries.of_mpinitLoop {count : Nat} (h : mpinitLoop mem e count s = .ok s')
    (hs : s.ncpu ≤ NCPU) : ∃ n, s.ncpu + n ≤ NCPU ∧ Entries mem e s.p n := by
  induction count generalizing s with
  | zero => simp [mpinitLoop] at h
  | succ count ih =>
    by_cases hp : s.p < e
    · cases hentry : mpinitEntry mem s with
      | error f => simp [mpinitLoop, hp, hentry] at h
      | ok s1 =>
        rw [mpinitLoop_succ hp hentry] at h
        rcases mpinitEntry_cases hentry with ⟨htype, hlt, hp1, hn1⟩ | ⟨htype, hp1, hn1⟩ | ⟨hp1, hn1⟩
        · obtain ⟨n, hn, hent⟩ := ih h (by omega)
          rw [hp1] at hent
          exact ⟨n + 1, by omega, .proc hp htype hent⟩
        · obtain ⟨n, hn, hent⟩ := ih h (by omega)
          rw [hp1] at hent
          exact ⟨n, by omega, .other hp htype hent⟩
        · obtain ⟨n, hn, hent⟩ := ih h (by omega)
          rw [hp1] at hent
          exact ⟨n, by omega, hent⟩
    · exact ⟨0, hs, .done hp⟩

lemma Entries.mpinitLoop {p : BitVec 32} (h : Entries mem e p n) (hp : s.p = p)
    (hn : s.ncpu + n ≤ NCPU) : ∃ count s', mpinitLoop mem e count s = .ok s' := by
  induction h generalizing s with
  | done h =>
    subst hp
    exact ⟨1, s, by rw [Kernel.mpinitLoop, if_neg h]⟩
  | proc h htype _ ih =>
    subst hp
    obtain ⟨s1, hentry, hp1, hn1⟩ := mpinitEntry_proc htype (by omega)
    obtain ⟨count, s', hs'⟩ := ih hp1 (by omega)
    exact ⟨count + 1, s', by rw [mpinitLoop_succ h hentry, hs']⟩
  | other h htype _ ih =>
    subst hp
    obtain ⟨s1, hentry, hp1, hn1⟩ := mpinitEntry_other htype
    obtain ⟨count, s', hs'⟩ := ih hp1 (by omega)
    exact ⟨count + 1, s', by rw [mpinitLoop_succ h hentry, hs']⟩

lemma exists_entries_of_mpinit {count : Nat} {conf : BitVec 32} (hconf : mpconfig mem = some conf)
    (h : mpinit mem count = .ok s) :
    ∃ n ≤ NCPU, Entries mem (confEnd mem conf) (conf + sizeofMpconf) n := by
  simp only [mpinit, hconf] at h
  cases hloop : mpinitLoop mem (confEnd mem conf) count (.start mem conf) with
  | error f => simp [hloop, Except.map] at h
  | ok s1 =>
    obtain ⟨n, hn, hent⟩ := Entries.of_mpinitLoop hloop (Nat.zero_le _)
    exact ⟨n, by simpa [Mp.start] using hn, hent⟩

/-- The scan ends, and writes only elements of `cpus`, exactly if the entries of the table have
known types and no more than `NCPU` of them are processors. -/
theorem mpinit_ends_iff (mem : Memory) :
    (∃ count s, mpinit mem count = .ok s) ↔
      ∀ conf, mpconfig mem = some conf →
        ∃ n ≤ NCPU, Entries mem (confEnd mem conf) (conf + sizeofMpconf) n := by
  constructor
  · rintro ⟨count, s, h⟩ conf hconf
    exact exists_entries_of_mpinit hconf h
  · intro h
    cases hconf : mpconfig mem with
    | none => exact ⟨0, {}, by simp [mpinit, hconf]⟩
    | some conf =>
      obtain ⟨n, hn, hent⟩ := h conf hconf
      have hstart : (Mp.start mem conf).ncpu + n ≤ NCPU := by simpa [Mp.start] using hn
      obtain ⟨count, s', hs'⟩ := hent.mpinitLoop rfl hstart
      refine ⟨count, ?_⟩
      simp only [mpinit, hconf, hs', Except.map]
      exact ⟨_, rfl⟩

/-! ### Two tables -/

/-- The byte that makes the sum of the bytes 0. -/
def checksum (bytes : List Byte) :
    Byte := BitVec.ofNat 8 (256 - bytes.foldl (fun n b => n + b.toNat) 0 % 256)

/-- A BIOS whose extended data area has an MP structure that points to these entries. -/
def bios (entries : List Byte) : Memory :=
  let mp : List Byte := mpSignature ++ [0x00, 0x20, 0, 0, 1, 1]
  let length := BitVec.ofNat 8 (44 + entries.length)
  let conf : List Byte := confSignature ++ [length, 0, 1]
  fun a =>
    let o := a.toNat - 0x80000000
    if o = 0x40F then 1
    else if o < 0x1000 then 0
    else if o < 0x2000 then (mp ++ [checksum mp]).getD (o - 0x1000) 0
    else (conf ++ [checksum (conf ++ entries)] ++ List.replicate 36 0 ++ entries).getD
      (o - 0x2000) 0

/-- An entry of unknown type is scanned again and again, and the entry of a ninth processor is
written behind the end of `cpus`. -/
theorem mpinit_not_robust :
    (∀ count s, mpinit (bios [5]) count ≠ .ok s) ∧
    ∃ count, mpinit (bios (List.replicate 180 0)) count = .error .cpus := by
  constructor
  · intro count s h
    have hconf : mpconfig (bios [5]) = some (p2v 0x2000) := by decide +kernel
    obtain ⟨n, -, hent⟩ := exists_entries_of_mpinit hconf h
    have hfive : bios [5] (p2v 0x2000 + sizeofMpconf) = 5 := by decide +kernel
    cases hent with
    | done hlt => exact hlt (by decide +kernel)
    | proc _ htype _ =>
      rw [hfive] at htype
      exact absurd htype (by decide)
    | other _ htype _ =>
      rw [hfive] at htype
      exact absurd htype (by decide)
  · exact ⟨10, by decide +kernel⟩

end Xv6.Kernel
