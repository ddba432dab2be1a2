import Xv6.User.Regex

/-!
# The lines of a file: `grep.c`

The loop of `grep` over its buffer. An address is its distance from `buf`, and what follows the
buffer in memory is part of the model, up to `top`: `strchr` stops only at a NUL. How `read` splits
the file is given by a list of the lengths it may return. -/

namespace Xv6.User.Grep

open Lib List

def newline : Byte := 10

/-- `sizeof(buf)`. -/
def BUFSIZE : Nat := 1024

inductive Fault
  /-- A byte behind the end of memory is read. -/
  | memory
  /-- `read` gets an address before `buf`. -/
  | before
  /-- Not in the source: a loop has been counted down. -/
  | count
  deriving DecidableEq, Repr

/-- The memory from `buf` on, the variable `m`, the rest of the file and what was printed. -/
structure Scan where
  mem : Bytes
  m : Int := 0
  rest : List Byte
  out : List Byte := []

/-- `read` puts `chunk` behind the `m` bytes in the buffer, and `m += n`. -/
def Scan.receive (s : Scan) (chunk : List Byte) : Scan :=
  { s with
    mem := s.mem.splice s.m.toNat chunk
    m := s.m + chunk.length
    rest := s.rest.drop chunk.length }

/-! ### The functions of `ulib.c` -/

/-- `strchr`, with `n` bytes up to the end of memory. -/
def strchr (mem : Bytes) (c : Byte) : (n s : Nat) → Except Fault (Option Nat)
  | 0, _ => .error .memory
  | n + 1, s =>
    if mem s = 0 then .ok none
    else if mem s = c then .ok (some s)
    else strchr mem c n (s + 1)

/-- `while(n-- > 0) *dst++ = *src++;` -/
def memmove (mem : Bytes) (dst src : Nat) : Nat → Bytes
  | 0 => mem
  | n + 1 => memmove (upd mem dst (mem src)) (dst + 1) (src + 1) n

/-- The C string at `p`, with `n` bytes up to the end of memory. -/
def stringAt (mem : Bytes) : (n p : Nat) → List Byte
  | 0, _ => []
  | n + 1, p => if mem p = 0 then [] else mem p :: stringAt mem n (p + 1)

/-- What follows the last newline is moved to the front; without one, nothing is kept. -/
def Scan.keep (s : Scan) (p : Nat) : Scan :=
  let m := if p = 0 then 0 else s.m
  if 0 < m then { s with m := m - p, mem := memmove s.mem 0 p (m - p).toNat } else { s with m }

/-! ### The loop over the buffer -/

section

variable (pattern : List Byte) (top : Nat)

/-- `while((q = strchr(p, '\n')) != 0)`. -/
def grepLines : (count p : Nat) → Scan → Except Fault (Nat × Scan)
  | 0, _, _ => .error .count
  | count + 1, p, s =>
    match strchr s.mem newline (top - p) p with
    | .error e => .error e
    | .ok none => .ok (p, s)
    | .ok (some q) =>
      let mem : Bytes := upd s.mem q 0
      if matchText pattern (stringAt mem (top - p) p) then
        let mem : Bytes := upd mem q newline
        grepLines count (q + 1) { s with mem, out := s.out ++ mem.slice p (q + 1 - p) }
      else
        grepLines count (q + 1) { s with mem }

/-- The body of the loop, after a `read` that returned `chunk`. -/
def grepBody (chunk : List Byte) (s : Scan) : Except Fault Scan :=
  (grepLines pattern top (top + 1) 0 (s.receive chunk)).map fun (p, s) => s.keep p

/-- What `read` returns when it has `k` bytes to give. -/
def chunkOf (k : Nat) (s : Scan) : List Byte := s.rest.take (min k (BUFSIZE - s.m.toNat))

/-- `grep`, for as many calls of `read` as there are lengths. -/
def grep : List Nat → Scan → Except Fault Scan
  | [], s => .ok s
  | k :: ks, s =>
    if s.m < 0 then .error .before
    else if chunkOf k s = [] then .ok s
    else
      match grepBody pattern top (chunkOf k s) s with
      | .error e => .error e
      | .ok s => grep ks s

end

/-! ### What the memory holds -/

/-- The list stands in memory at `p`. -/
def Holds (mem : Bytes) (p : Nat) : List Byte → Prop
  | [] => True
  | b :: bs => mem p = b ∧ Holds mem (p + 1) bs

variable {mem mem' : Bytes} {p q n e : Nat} {xs ys l : List Byte}

lemma holds_append : Holds mem p (xs ++ ys) ↔ Holds mem p xs ∧ Holds mem (p + xs.length) ys := by
  induction xs generalizing p with
  | nil => simp [Holds]
  | cons x xs ih =>
    simp only [cons_append, Holds, ih, length_cons, and_assoc]
    rw [Nat.add_right_comm, Nat.add_assoc]

lemma Holds.move (h : Holds mem p xs) (hm : ∀ j < xs.length, mem' (q + j) = mem (p + j)) :
    Holds mem' q xs := by
  induction xs generalizing p q with
  | nil => exact trivial
  | cons x xs ih =>
    refine ⟨(hm 0 (by simp)).trans h.1, ih h.2 ?_⟩
    intro j hj
    have := hm (j + 1) (by simpa using hj)
    rwa [← Nat.add_assoc, ← Nat.add_assoc, Nat.add_right_comm q, Nat.add_right_comm p] at this

lemma Holds.congr (h : Holds mem p xs) (hm : ∀ j, p ≤ j → j < p + xs.length → mem' j = mem j) :
    Holds mem' p xs :=
  h.move fun j hj => hm (p + j) (by omega) (by omega)

lemma Holds.slice (h : Holds mem p xs) : mem.slice p xs.length = xs := by
  induction xs generalizing p with
  | nil => rfl
  | cons x xs ih =>
    have hcons : mem.slice p (xs.length + 1) = mem p :: mem.slice (p + 1) xs.length := by
      simp only [Bytes.slice, range_succ_eq_map, map_cons, map_map, Nat.add_zero]
      congr 1
      apply map_congr_left
      intro i _
      simp only [Function.comp_apply, Nat.succ_eq_add_one]
      congr 1
      omega
    rw [length_cons, hcons, h.1, ih h.2]

lemma holds_splice (p : Nat) (xs : List Byte) : Holds (mem.splice p xs) p xs := by
  induction xs generalizing p mem with
  | nil => exact trivial
  | cons x xs ih =>
    refine ⟨by simp [Bytes.splice],
      (show Holds (mem.splice (p + 1) xs) (p + 1) xs from ih (p + 1)).congr ?_⟩
    intro j hj hlt
    have hidx : j - p = j - (p + 1) + 1 := by omega
    simp only [Bytes.splice, length_cons]
    rw [if_pos (by omega), if_pos (by omega), hidx, getD_cons_succ]

/-- No character of the list stops `strchr`. -/
def Plain (xs : List Byte) : Prop := ∀ c ∈ xs, c ≠ 0 ∧ c ≠ newline

lemma strchr_plain (h : Holds mem p xs) (hx : Plain xs) :
    strchr mem newline (xs.length + n) p = strchr mem newline n (p + xs.length) := by
  induction xs generalizing p with
  | nil => simp
  | cons x xs ih =>
    obtain ⟨hx0, hx1⟩ := hx x (mem_cons_self ..)
    have hrest := ih h.2 fun c hc => hx c (mem_cons_of_mem _ hc)
    have hlen : (x :: xs).length + n = (xs.length + n) + 1 := by simp only [length_cons]; omega
    rw [hlen, strchr, h.1, if_neg hx0, if_neg hx1, hrest, length_cons]
    congr 1
    omega

lemma strchr_ge (h : strchr mem newline n p = .ok (some q)) : p ≤ q := by
  induction n generalizing p with
  | zero => simp [strchr] at h
  | succ n ih =>
    rw [strchr] at h
    split_ifs at h with h0 hc
    · cases h
    · cases h
      exact le_rfl
    · exact Nat.le_of_succ_le (ih h)

lemma stringAt_plain (h : Holds mem p xs) (hx : Plain xs) (h0 : mem (p + xs.length) = 0) :
    stringAt mem (xs.length + (n + 1)) p = xs := by
  induction xs generalizing p with
  | nil =>
    rw [length_nil, Nat.zero_add, stringAt, if_pos (by simpa using h0)]
  | cons x xs ih =>
    have hrest := ih h.2 (fun c hc => hx c (mem_cons_of_mem _ hc))
      (by rw [← h0, length_cons]; congr 1; omega)
    have hlen : (x :: xs).length + (n + 1) = (xs.length + (n + 1)) + 1 := by
      simp only [length_cons]; omega
    rw [hlen, stringAt, h.1, if_neg (hx x (mem_cons_self ..)).1, hrest]

lemma memmove_apply {d s : Nat} (h : d ≤ s) (j : Nat) :
    memmove mem d s n j = if d ≤ j ∧ j < d + n then mem (j - d + s) else mem j := by
  induction n generalizing mem d s with
  | zero =>
    rw [memmove, if_neg (by omega)]
  | succ n ih =>
    rw [memmove, ih (by omega)]
    by_cases hj : j = d
    · subst hj
      rw [if_neg (by omega), if_pos (by omega), upd_same, Nat.sub_self, Nat.zero_add]
    · rw [upd_ne hj]
      by_cases hin : d ≤ j ∧ j < d + (n + 1)
      · have hsrc : j - (d + 1) + (s + 1) = j - d + s := by omega
        rw [if_pos (by omega), if_pos hin, hsrc, upd_ne (by omega)]
      · rw [if_neg (by omega), if_neg hin]

/-! ### Lines -/

/-- The lines as they stand in the file. -/
def unlines (ls : List (List Byte)) : List Byte := ls.flatMap fun l => l ++ [newline]

@[simp] lemma unlines_nil : unlines [] = [] := rfl

@[simp] lemma unlines_cons (l : List Byte) (ls : List (List Byte)) :
    unlines (l :: ls) = (l ++ [newline]) ++ unlines ls := rfl

@[simp] lemma unlines_append (ls ls' : List (List Byte)) :
    unlines (ls ++ ls') = unlines ls ++ unlines ls' := by
  simp [unlines]

lemma length_le_unlines (ls : List (List Byte)) : ls.length ≤ (unlines ls).length := by
  induction ls with
  | nil => simp
  | cons l ls ih =>
    simp only [unlines_cons, length_append, length_cons]
    omega

/-- A line of the file: it fits in the buffer with its newline, which needs one byte to spare. -/
structure IsLine (l : List Byte) : Prop where
  plain : Plain l
  length_le : l.length + 1 < BUFSIZE

/-- What begins the lines ends in the middle of one. -/
lemma exists_cut {todo : List (List Byte)} (h : xs ++ ys = unlines todo)
    (hl : ∀ l ∈ todo, Plain l) :
    ∃ new todo' part, todo = new ++ todo' ∧ xs = unlines new ++ part ∧ part ++ ys = unlines todo' ∧
      newline ∉ part := by
  induction todo generalizing xs with
  | nil =>
    obtain ⟨rfl, rfl⟩ := append_eq_nil_iff.mp h
    exact ⟨[], [], [], rfl, rfl, rfl, by simp⟩
  | cons l todo ih =>
    obtain ⟨hl, hls⟩ := forall_mem_cons.mp hl
    rw [unlines_cons] at h
    rcases append_eq_append_iff.mp h with ⟨zs, hzs, rfl⟩ | ⟨zs, rfl, hzs⟩
    · by_cases hz : zs = []
      · -- the line and its newline are all there is
        subst hz
        refine ⟨[l], todo, [], rfl, by simpa using hzs.symm, rfl, by simp⟩
      · refine ⟨[], l :: todo, xs, rfl, rfl, by rw [unlines_cons, hzs, append_assoc], ?_⟩
        intro hmem
        obtain ⟨z, hz'⟩ : ∃ z, l = xs ++ z := by
          obtain ⟨w, b, rfl⟩ := eq_nil_or_concat zs |>.resolve_left hz
          rw [concat_eq_append, ← append_assoc] at hzs
          exact ⟨w, (append_inj' hzs rfl).1⟩
        exact (hl newline (hz' ▸ mem_append_left _ hmem)).2 rfl
    · obtain ⟨new, todo', part, rfl, rfl, hpart, hn⟩ := ih hzs.symm hls
      exact ⟨l :: new, todo', part, rfl, by simp, hpart, hn⟩

/-! ### One pass over the buffer -/

section Pass

variable {pattern : List Byte} {top count : Nat} {s s' : Scan} {ls ls' : List (List Byte)}

/-- The lines `ls` that match have been printed, and the memory from `e` on is untouched. -/
structure Printed (pattern : List Byte) (ls : List (List Byte)) (e : Nat) (s s' : Scan) : Prop where
  m : s'.m = s.m
  rest : s'.rest = s.rest
  out : s'.out = s.out ++ unlines (ls.filter (matchText pattern))
  mem : ∀ j, e ≤ j → s'.mem j = s.mem j

lemma Printed.append {s'' : Scan} {e e' : Nat} (h : Printed pattern ls e s s')
    (h' : Printed pattern ls' e' s' s'') (he : e ≤ e') : Printed pattern (ls ++ ls') e' s s'' where
  m := h'.m.trans h.m
  rest := h'.rest.trans h.rest
  out := by rw [h'.out, h.out, filter_append, unlines_append, append_assoc]
  mem j hj := (h'.mem j hj).trans (h.mem j (he.trans hj))

variable (pattern count) in
lemma grepLines_line (hl : Plain l) (h : Holds s.mem p (l ++ [newline]))
    (htop : p + l.length < top) :
    ∃ s', grepLines pattern top (count + 1) p s =
        grepLines pattern top count (p + (l ++ [newline]).length) s' ∧
      Printed pattern [l] (p + (l ++ [newline]).length) s s' := by
  obtain ⟨hh, hnl, -⟩ := holds_append.mp h
  have hn : top - p = l.length + ((top - (p + l.length + 1)) + 1) := by omega
  have hq : strchr s.mem newline (top - p) p = .ok (some (p + l.length)) := by
    rw [hn, strchr_plain hh hl, strchr, hnl, if_neg (by decide), if_pos rfl]
  have hstr : stringAt (upd s.mem (p + l.length) 0) (top - p) p = l := by
    rw [hn]
    refine stringAt_plain (hh.congr ?_) hl (upd_same ..)
    intro j _ hj
    exact upd_ne (by omega)
  have hlen : (l ++ [newline]).length = l.length + 1 := by simp
  rw [hlen, ← Nat.add_assoc, grepLines, hq]
  dsimp only
  rw [hstr, upd_upd]
  cases hm : matchText pattern l with
  | true =>
    have hself : upd s.mem (p + l.length) newline = s.mem := by
      rw [← hnl]
      exact upd_eq_self ..
    have hout : s.mem.slice p (p + l.length + 1 - p) = l ++ [newline] := by
      have hsub : p + l.length + 1 - p = (l ++ [newline]).length := by rw [hlen]; omega
      rw [hsub]
      exact h.slice
    rw [if_pos rfl, hself, hout]
    exact ⟨_, rfl, rfl, rfl, by simp [hm], fun _ _ => rfl⟩
  | false =>
    rw [if_neg (by simp)]
    exact ⟨_, rfl, rfl, rfl, by simp [hm], fun j hj => upd_ne (by omega)⟩

variable (pattern top count) in
lemma grepLines_unlines (hl : ∀ l ∈ ls, Plain l) (h : Holds s.mem p (unlines ls))
    (htop : p + (unlines ls).length ≤ top) :
    ∃ s', grepLines pattern top (ls.length + count) p s =
        grepLines pattern top count (p + (unlines ls).length) s' ∧
      Printed pattern ls (p + (unlines ls).length) s s' := by
  induction ls generalizing p s with
  | nil => exact ⟨s, by simp, rfl, rfl, by simp, fun _ _ => rfl⟩
  | cons l ls ih =>
    obtain ⟨hl, hls⟩ := forall_mem_cons.mp hl
    rw [unlines_cons, length_append] at htop
    rw [unlines_cons] at h
    obtain ⟨hline, hrest⟩ := holds_append.mp h
    have hlen : (l ++ [newline]).length = l.length + 1 := by simp
    have hfirst : p + l.length < top := by omega
    obtain ⟨s1, h1, hp1⟩ := grepLines_line pattern (ls.length + count) hl hline hfirst
    obtain ⟨s2, h2, hp2⟩ := ih (p := p + (l ++ [newline]).length) (s := s1) hls
      (hrest.congr fun j hj _ => hp1.mem j hj) (by omega)
    have hsum : p + (unlines (l :: ls)).length =
        p + (l ++ [newline]).length + (unlines ls).length := by
      simp only [unlines_cons, length_append]
      omega
    refine ⟨s2, ?_, ?_⟩
    · rw [length_cons, Nat.succ_add, h1, h2, hsum]
    · rw [hsum]
      exact hp1.append hp2 (by omega)

lemma grepLines_frame (h : grepLines pattern top count p s = .ok (q, s')) :
    p ≤ q ∧ s'.m = s.m ∧ s'.rest = s.rest := by
  induction count generalizing p s with
  | zero => simp [grepLines] at h
  | succ count ih =>
    rw [grepLines] at h
    cases hq : strchr s.mem newline (top - p) p with
    | error e => simp [hq] at h
    | ok r =>
      cases r with
      | none =>
        simp only [hq, Except.ok.injEq, Prod.mk.injEq] at h
        obtain ⟨rfl, rfl⟩ := h
        exact ⟨le_rfl, rfl, rfl⟩
      | some q' =>
        have hge := strchr_ge hq
        simp only [hq] at h
        split_ifs at h
        · obtain ⟨hle, hm, hr⟩ := ih h
          exact ⟨by omega, hm, hr⟩
        · obtain ⟨hle, hm, hr⟩ := ih h
          exact ⟨by omega, hm, hr⟩

end Pass

/-! ### The run -/

section Run

variable {pattern : List Byte} {top : Nat} {s s' : Scan} {done todo ls : List (List Byte)}
  {part chunk rest : List Byte}

/-- The lines `done` have been dealt with, and `part`, the beginning of the next one, is in the
buffer. -/
structure Stage (pattern : List Byte) (done todo : List (List Byte)) (part : List Byte) (s : Scan) :
    Prop where
  rest : part ++ s.rest = unlines todo
  unended : newline ∉ part
  m : s.m = part.length
  mem : Holds s.mem 0 part
  out : s.out = unlines (done.filter (matchText pattern))

/-- What has been printed is what of the file read so far should be, and the rest of that is still
in the buffer. -/
def OnCourse (pattern : List Byte) (ls : List (List Byte)) (s : Scan) : Prop :=
  ∃ done todo part, ls = done ++ todo ∧ Stage pattern done todo part s

/-- The read brings the end of a line, and no newline is found behind what has been read: from there
on there is a NUL before the next one. -/
def Clear (top : Nat) (chunk : List Byte) (s : Scan) : Prop :=
  newline ∈ chunk ∧
    strchr s.mem newline (top - (s.m.toNat + chunk.length)) (s.m.toNat + chunk.length) = .ok none

lemma strchr_congr (h : ∀ j, p ≤ j → mem' j = mem j) :
    strchr mem' newline n p = strchr mem newline n p := by
  induction n generalizing p with
  | zero => rfl
  | succ n ih =>
    rw [strchr, strchr, h p le_rfl, ih fun j hj => h j (Nat.le_of_succ_le hj)]

/-- Lines end with a newline. -/
lemma newline_mem_of_unlines (h : unlines ls = xs ++ ys) (hy : ys ≠ []) : newline ∈ ys := by
  rcases eq_nil_or_concat ls with rfl | ⟨init, l, rfl⟩
  · exact absurd (append_eq_nil_iff.mp h.symm).2 hy
  · obtain ⟨zs, y, rfl⟩ := (eq_nil_or_concat ys).resolve_left hy
    simp only [concat_eq_append, unlines_append, unlines_cons, unlines_nil, append_nil,
      ← append_assoc] at h
    have hlast := (append_inj' h rfl).2
    simp only [List.cons.injEq, and_true] at hlast
    simp [hlast]

lemma Stage.plain (h : Stage pattern done todo part s) (htodo : ∀ l ∈ todo, IsLine l)
    (hs : s.rest = chunk ++ rest) : ∀ c ∈ part ++ chunk, c ≠ 0 := by
  intro c hc
  have hmem : c ∈ unlines todo := by
    rw [← h.rest, hs, ← append_assoc]
    exact mem_append_left _ hc
  obtain ⟨l, hl, hcl⟩ := mem_flatMap.mp hmem
  rcases mem_append.mp hcl with hcl | hcl
  · exact ((htodo l hl).plain c hcl).1
  · rw [mem_singleton.mp hcl]
    decide

lemma Stage.holds_receive (h : Stage pattern done todo part s) (chunk : List Byte) :
    Holds (s.receive chunk).mem 0 (part ++ chunk) := by
  have hm : s.m.toNat = part.length := by rw [h.m, Int.toNat_natCast]
  apply holds_append.mpr
  constructor
  · refine h.mem.congr fun j _ hj => ?_
    exact if_neg (by omega)
  · rw [Nat.zero_add, ← hm]
    exact holds_splice _ _

/-- The pass over the buffer up to the unfinished line `part'`: the next newline that `strchr` looks
for is behind what has been read. -/
lemma Stage.grepLines_eq {new : List (List Byte)} {part' : List Byte}
    (h : Stage pattern done todo part s) (hnew : ∀ l ∈ new, Plain l) (hpart : Plain part')
    (hcut : part ++ chunk = unlines new ++ part') (htop : part.length + chunk.length ≤ top) :
    ∃ s1 count, grepLines pattern top (top + 1) 0 (s.receive chunk) =
        grepLines pattern top (count + 1) (unlines new).length s1 ∧
      Printed pattern new (unlines new).length (s.receive chunk) s1 ∧
      Holds s1.mem (unlines new).length part' ∧
      strchr s1.mem newline (top - (unlines new).length) (unlines new).length =
        strchr s.mem newline (top - (s.m.toNat + chunk.length)) (s.m.toNat + chunk.length) := by
  have hm : s.m.toNat = part.length := by rw [h.m, Int.toNat_natCast]
  have hlen : part.length + chunk.length = (unlines new).length + part'.length := by
    simpa using congrArg List.length hcut
  have hholds := h.holds_receive chunk
  rw [hcut] at hholds
  obtain ⟨hnewh, hparth⟩ := holds_append.mp hholds
  rw [Nat.zero_add] at hparth
  have hcount := length_le_unlines new
  obtain ⟨s1, h1, hp⟩ := grepLines_unlines pattern top (top - new.length + 1) hnew hnewh
    (by omega)
  rw [Nat.zero_add] at h1 hp
  have hparth1 : Holds s1.mem (unlines new).length part' := hparth.congr fun j hj _ => hp.mem j hj
  refine ⟨s1, top - new.length, ?_, hp, hparth1, ?_⟩
  · rw [← h1]
    congr 1
    omega
  · have hsplit : top - (unlines new).length =
        part'.length + (top - (s.m.toNat + chunk.length)) := by omega
    have hend : (unlines new).length + part'.length = s.m.toNat + chunk.length := by omega
    rw [hsplit, strchr_plain hparth1 hpart, hend]
    apply strchr_congr
    intro j hj
    rw [hp.mem j (by omega)]
    exact if_neg (by omega)

lemma OnCourse.m_nonneg (h : OnCourse pattern ls s) : 0 ≤ s.m := by
  obtain ⟨_, _, part, _, hst⟩ := h
  rw [hst.m]
  exact Int.natCast_nonneg _

/-- A newline behind what has been read takes `m` below 0. -/
lemma Scan.keep_m_neg (hm : 0 < s.m) (hp : s.m < p) : (s.keep p).m < 0 := by
  have hp0 : p ≠ 0 := by omega
  simp only [keep, if_neg hp0, if_pos hm]
  omega

lemma Scan.keep_zero (s : Scan) : s.keep 0 = { s with m := 0 } := by
  simp [keep]

/-- Without a newline the beginning of the line is lost. -/
lemma not_onCourse_zero (hrest : part ++ s.rest = unlines todo) (hpart : part ≠ [])
    (hn : newline ∉ part) (hm : s.m = 0) : ¬ OnCourse pattern (done ++ todo) s := by
  rintro ⟨done', todo', part', hls, hst⟩
  have hpart' : part' = [] := by
    have hlen := hst.m
    rw [hm] at hlen
    exact eq_nil_of_length_eq_zero (by omega)
  have hrest' := hst.rest
  rw [hpart', nil_append] at hrest'
  have hall : unlines done' ++ s.rest = (unlines done ++ part) ++ s.rest := by
    rw [append_assoc, hrest, hrest', ← unlines_append, ← unlines_append, hls]
  exact hn (newline_mem_of_unlines (append_cancel_right hall) hpart)

/-- What follows the last newline is kept. -/
lemma Stage.keep {e : Nat} (he : 0 < e) (hrest : part ++ s.rest = unlines todo)
    (hn : newline ∉ part)
    (hm : s.m = e + part.length) (hholds : Holds s.mem e part)
    (hout : s.out = unlines (done.filter (matchText pattern))) :
    Stage pattern done todo part (s.keep e) := by
  have hpos : 0 < s.m := by omega
  have hsub : s.m - e = part.length := by omega
  simp only [Scan.keep, if_neg he.ne', if_pos hpos, hsub, Int.toNat_natCast]
  refine ⟨hrest, hn, rfl, ?_, hout⟩
  apply hholds.move
  intro j hj
  change memmove s.mem 0 e part.length (0 + j) = _
  rw [Nat.zero_add, memmove_apply (Nat.zero_le e), if_pos (by omega), Nat.sub_zero, Nat.add_comm]

/-- After a `read`, `grep` stays on course exactly if it is clear. -/
lemma grepBody_onCourse_iff (h : Stage pattern done todo part s) (htodo : ∀ l ∈ todo, IsLine l)
    (hs : s.rest = chunk ++ rest) (hne : chunk ≠ []) (htop : part.length + chunk.length ≤ top) :
    (∃ s', grepBody pattern top chunk s = .ok s' ∧ OnCourse pattern (done ++ todo) s') ↔
      Clear top chunk s := by
  have hrest := h.rest
  rw [hs, ← append_assoc] at hrest
  obtain ⟨new, todo', part', rfl, hcut, hpart', hn'⟩ :=
    exists_cut hrest fun l hl => (htodo l hl).plain
  have hplain : Plain part' := by
    intro c hc
    refine ⟨h.plain htodo hs c (hcut ▸ mem_append_right _ hc), ?_⟩
    rintro rfl
    exact hn' hc
  obtain ⟨s1, count, heq, hp, hholds, hstr⟩ := h.grepLines_eq
    (fun l hl => (htodo l (mem_append_left _ hl)).plain) hplain hcut htop
  have hm : s1.m = part.length + chunk.length := by
    rw [hp.m, Scan.receive, h.m]
  have hpos : 0 < chunk.length := length_pos_iff.mpr hne
  have hlen : part.length + chunk.length = (unlines new).length + part'.length := by
    simpa using congrArg List.length hcut
  have hmn : s.m.toNat = part.length := by rw [h.m, Int.toNat_natCast]
  unfold Clear
  rw [grepBody, heq, grepLines, hstr]
  cases hq : strchr s.mem newline (top - (s.m.toNat + chunk.length)) (s.m.toNat + chunk.length) with
  | error e => simp [Except.map]
  | ok r =>
    cases r with
    | some q =>
      -- a newline found behind the buffer's contents: `m` ends below 0
      have hge := strchr_ge hq
      have hlost : ∀ s2 : Scan, s2.m = s1.m →
          ¬ ∃ s', (grepLines pattern top count (q + 1) s2).map (fun (p, s) => s.keep p) = .ok s' ∧
            OnCourse pattern (done ++ (new ++ todo')) s' := by
        rintro s2 hs2 ⟨s', hrun, hon⟩
        cases hl : grepLines pattern top count (q + 1) s2 with
        | error e => simp [hl, Except.map] at hrun
        | ok r =>
          obtain ⟨hle, hm3, -⟩ := grepLines_frame
            (show grepLines pattern top count (q + 1) s2 = .ok (r.1, r.2) from hl)
          simp only [hl, Except.map, Except.ok.injEq] at hrun
          have hneg : (r.2.keep r.1).m < 0 := Scan.keep_m_neg (by omega) (by omega)
          have hnonneg := hon.m_nonneg
          rw [← hrun] at hnonneg
          omega
      simp only [reduceCtorEq, Except.ok.injEq, and_false, iff_false]
      split_ifs
      · exact hlost _ rfl
      · exact hlost _ rfl
    | none =>
      simp only [Except.map, Except.ok.injEq, exists_eq_left', and_true]
      have hr1 : part' ++ s1.rest = unlines todo' := by
        rw [hp.rest, Scan.receive, hs, drop_left, hpart']
      have hout1 : s1.out = unlines ((done ++ new).filter (matchText pattern)) := by
        rw [hp.out, Scan.receive, h.out, filter_append, unlines_append]
      by_cases hnew : new = []
      · subst hnew
        have hpart : part ++ chunk = part' := hcut
        have hno : newline ∉ chunk := fun hmem => hn' (hpart ▸ mem_append_right _ hmem)
        refine iff_of_false ?_ hno
        rw [unlines_nil, length_nil, Scan.keep_zero]
        refine not_onCourse_zero hr1 ?_ hn' rfl
        rw [← hpart]
        exact append_ne_nil_of_right_ne_nil _ hne
      · have hmem : newline ∈ part ++ chunk := by
          obtain ⟨l, new', rfl⟩ := exists_cons_of_ne_nil hnew
          simp [hcut]
        refine iff_of_true ?_ ((mem_append.mp hmem).resolve_left h.unended)
        refine ⟨done ++ new, todo', part', (append_assoc ..).symm, ?_⟩
        have hne' := length_le_unlines new
        have hnewpos : 0 < new.length := length_pos_iff.mpr hnew
        exact Stage.keep (by omega) hr1 hn' (by omega) hholds hout1

lemma grepBody_rest (h : grepBody pattern top chunk s = .ok s') :
    s'.rest = s.rest.drop chunk.length := by
  rw [grepBody] at h
  cases hl : grepLines pattern top (top + 1) 0 (s.receive chunk) with
  | error e => simp [hl, Except.map] at h
  | ok r =>
    obtain ⟨-, -, hr⟩ := grepLines_frame
      (show grepLines pattern top (top + 1) 0 (s.receive chunk) = .ok (r.1, r.2) from hl)
    simp only [hl, Except.map, Except.ok.injEq] at h
    have hkeep : (r.2.keep r.1).rest = r.2.rest := by
      simp only [Scan.keep]
      split_ifs <;> rfl
    rw [← h, hkeep, hr]
    rfl

/-- Every read of the run is clear. -/
def AllClear (pattern : List Byte) (top : Nat) : List Nat → Scan → Prop
  | [], _ => True
  | k :: ks, s =>
    chunkOf k s ≠ [] → Clear top (chunkOf k s) s ∧
      ∀ s', grepBody pattern top (chunkOf k s) s = .ok s' → AllClear pattern top ks s'

variable {ks : List Nat} {k : Nat}

/-- The unfinished line leaves room in the buffer. -/
lemma Stage.length_lt (h : Stage pattern done todo part s) (htodo : ∀ l ∈ todo, IsLine l) :
    part.length + 1 < BUFSIZE := by
  have hrest := h.rest
  cases todo with
  | nil =>
    obtain ⟨rfl, -⟩ := append_eq_nil_iff.mp hrest
    decide
  | cons l todo =>
    have hl := (htodo l (mem_cons_self ..)).length_le
    rw [unlines_cons, append_assoc] at hrest
    rcases append_eq_append_iff.mp hrest with ⟨zs, rfl, -⟩ | ⟨zs, rfl, hzs⟩
    · rw [length_append] at hl
      omega
    · cases zs with
      | nil => simpa using hl
      | cons z zs =>
        have hz : newline = z := (List.cons.inj hzs).1
        exact absurd (mem_append_right _ (hz ▸ mem_cons_self ..)) h.unended

lemma OnCourse.chunkOf_ne_nil (h : OnCourse pattern ls s) (hls : ∀ l ∈ ls, IsLine l) (hk : 0 < k)
    (hr : s.rest ≠ []) : chunkOf k s ≠ [] := by
  obtain ⟨done, todo, part, rfl, hst⟩ := h
  have hlt := hst.length_lt fun l hl => hls l (mem_append_right _ hl)
  have hm : s.m.toNat = part.length := by rw [hst.m, Int.toNat_natCast]
  have hpos := length_pos_iff.mpr hr
  apply length_pos_iff.mp
  rw [chunkOf, length_take, hm]
  omega

/-- One read of a run. -/
lemma OnCourse.grepBody_iff (h : OnCourse pattern ls s) (hls : ∀ l ∈ ls, IsLine l)
    (hne : chunkOf k s ≠ []) (htop : BUFSIZE ≤ top) :
    (∃ s', grepBody pattern top (chunkOf k s) s = .ok s' ∧ OnCourse pattern ls s') ↔
      Clear top (chunkOf k s) s := by
  obtain ⟨done, todo, part, rfl, hst⟩ := h
  have htodo : ∀ l ∈ todo, IsLine l := fun l hl => hls l (mem_append_right _ hl)
  have hlt := hst.length_lt htodo
  have hm : s.m.toNat = part.length := by rw [hst.m, Int.toNat_natCast]
  have hlen : (chunkOf k s).length ≤ BUFSIZE - part.length := by
    rw [chunkOf, length_take, hm]
    omega
  exact grepBody_onCourse_iff hst htodo (take_append_drop _ _).symm hne (by omega)

lemma grep_cons (hm : 0 ≤ s.m) (hne : chunkOf k s ≠ [])
    (hbody : grepBody pattern top (chunkOf k s) s = .ok s') :
    grep pattern top (k :: ks) s = grep pattern top ks s' := by
  rw [grep, if_neg (by omega), if_neg hne, hbody]

lemma grep_done (hm : 0 ≤ s.m) (h : chunkOf k s = []) : grep pattern top (k :: ks) s = .ok s := by
  rw [grep, if_neg (by omega), if_pos h]

/-- All of the run is on course exactly if every read is clear. -/
lemma OnCourse.grep_iff (h : OnCourse pattern ls s) (hls : ∀ l ∈ ls, IsLine l)
    (htop : BUFSIZE ≤ top) :
    (∀ j, ∃ s', grep pattern top (ks.take j) s = .ok s' ∧ OnCourse pattern ls s') ↔
      AllClear pattern top ks s := by
  induction ks generalizing s with
  | nil => exact iff_of_true (fun j => ⟨s, by rw [take_nil]; rfl, h⟩) trivial
  | cons k ks ih =>
    by_cases hne : chunkOf k s = []
    · refine iff_of_true (fun j => ?_) fun hne' => absurd hne hne'
      cases j with
      | zero => exact ⟨s, rfl, h⟩
      | succ j => exact ⟨s, grep_done h.m_nonneg hne, h⟩
    · constructor
      · intro hall _
        have hbody : ∃ s', grepBody pattern top (chunkOf k s) s = .ok s' ∧
            OnCourse pattern ls s' := by
          obtain ⟨s', hrun, hon⟩ := hall 1
          rw [take_succ_cons, take_zero] at hrun
          cases hb : grepBody pattern top (chunkOf k s) s with
          | error e => simp [grep, hb, hne, h.m_nonneg.not_gt] at hrun
          | ok s1 =>
            rw [grep_cons h.m_nonneg hne hb] at hrun
            cases hrun
            exact ⟨_, rfl, hon⟩
        refine ⟨(h.grepBody_iff hls hne htop).mp hbody, fun s1 hs1 => ?_⟩
        obtain ⟨s', hs', hon⟩ := hbody
        rw [hs'] at hs1
        cases hs1
        refine (ih hon).mp fun j => ?_
        have := hall (j + 1)
        rwa [take_succ_cons, grep_cons h.m_nonneg hne hs'] at this
      · intro hclear j
        obtain ⟨hc, hnext⟩ := hclear hne
        obtain ⟨s', hs', hon⟩ := (h.grepBody_iff hls hne htop).mpr hc
        cases j with
        | zero => exact ⟨s, rfl, h⟩
        | succ j =>
          rw [take_succ_cons, grep_cons h.m_nonneg hne hs']
          exact (ih hon).mpr (hnext s' hs') j

/-- With enough reads the file is read to its end. -/
lemma OnCourse.grep_rest (h : OnCourse pattern ls s) (hls : ∀ l ∈ ls, IsLine l)
    (htop : BUFSIZE ≤ top) (hks : ∀ k ∈ ks, 0 < k) (hlen : s.rest.length ≤ ks.length)
    (hclear : AllClear pattern top ks s) :
    ∃ s', grep pattern top ks s = .ok s' ∧ OnCourse pattern ls s' ∧ s'.rest = [] := by
  induction ks generalizing s with
  | nil => exact ⟨s, rfl, h, eq_nil_of_length_eq_zero (Nat.le_zero.mp hlen)⟩
  | cons k ks ih =>
    obtain ⟨hk, hks⟩ := forall_mem_cons.mp hks
    by_cases hr : s.rest = []
    · have hne : chunkOf k s = [] := by rw [chunkOf, hr, take_nil]
      exact ⟨s, grep_done h.m_nonneg hne, h, hr⟩
    · have hne := h.chunkOf_ne_nil hls hk hr
      obtain ⟨hc, hnext⟩ := hclear hne
      obtain ⟨s', hs', hon⟩ := (h.grepBody_iff hls hne htop).mpr hc
      rw [grep_cons h.m_nonneg hne hs']
      refine ih hon hks ?_ (hnext s' hs')
      have hpos := length_pos_iff.mpr hne
      rw [grepBody_rest hs', length_drop]
      simp only [length_cons] at hlen
      omega

lemma OnCourse.out_of_rest (h : OnCourse pattern ls s) (hr : s.rest = []) :
    s.out = unlines (ls.filter (matchText pattern)) := by
  obtain ⟨done, todo, part, rfl, hst⟩ := h
  have hrest := hst.rest
  rw [hr, append_nil] at hrest
  have htodo : todo = [] := by
    cases todo with
    | nil => rfl
    | cons l todo => exact absurd (by simp [hrest]) hst.unended
  rw [hst.out, htodo, append_nil]

/-- `grep` prints exactly the lines that match if every read is clear: it brings the end of a line,
and behind what has been read no newline stands before the next NUL. Then, and only then, every
state of the run is on course. -/
theorem grep_prints_matching (pattern : List Byte) (top : Nat) (mem : Bytes) (ls : List (List Byte))
    (ks : List Nat) (hls : ∀ l ∈ ls, IsLine l) (hks : ∀ k ∈ ks, 0 < k) (htop : BUFSIZE ≤ top) :
    ((∀ j, ∃ s, grep pattern top (ks.take j) { mem, rest := unlines ls } = .ok s ∧
        OnCourse pattern ls s) ↔
      AllClear pattern top ks { mem, rest := unlines ls }) ∧
    (AllClear pattern top ks { mem, rest := unlines ls } → (unlines ls).length ≤ ks.length →
      ∃ s, grep pattern top ks { mem, rest := unlines ls } = .ok s ∧ s.rest = [] ∧
        s.out = unlines (ls.filter (matchText pattern))) := by
  have h : OnCourse pattern ls { mem, rest := unlines ls } :=
    ⟨[], ls, [], rfl, rfl, by simp, rfl, trivial, rfl⟩
  refine ⟨h.grep_iff hls htop, fun hclear hlen => ?_⟩
  obtain ⟨s, hs, hon, hr⟩ := h.grep_rest hls htop hks hlen hclear
  exact ⟨s, hs, hr, hon.out_of_rest hr⟩

lemma allClear_of_rest (hr : s.rest = []) : AllClear pattern top ks s := by
  cases ks with
  | nil => trivial
  | cons k ks => exact fun hne => absurd (by rw [chunkOf, hr, take_nil]) hne

/-- A file of two lines, with the second one in both reads. -/
theorem grep_prints_matching_two :
    ∃ s, grep [0x61] BUFSIZE [4, 1, 1, 1, 1]
      { mem := fun _ => 0, rest := unlines [[0x61], [0x62, 0x62]] } = .ok s ∧
      s.rest = [] ∧ s.out = unlines ([[0x61], [0x62, 0x62]].filter (matchText [0x61])) := by
  have hyes : matchText [0x61] [0x61] = true := by
    simp [matchText, matchLoop, matchhere, caret, asterisk, dollar, dot]
  have hline : ∀ l ∈ [([0x61] : List Byte), [0x62, 0x62]], IsLine l := by
    intro l hl
    rcases mem_pair.mp hl with rfl | rfl
    · exact ⟨by simp [Plain, newline], by decide⟩
    · exact ⟨by simp [Plain, newline], by decide⟩
  let s0 : Scan := { mem := fun _ => 0, rest := unlines [[0x61], [0x62, 0x62]] }
  have hq : strchr (s0.receive [0x61, newline, 0x62, 0x62]).mem newline (BUFSIZE - 0) 0 =
    .ok (some 1) := rfl
  have hstr : stringAt (upd (s0.receive [0x61, newline, 0x62, 0x62]).mem 1 0) (BUFSIZE - 0) 0 =
    [0x61] := rfl
  have hbody : ∃ s1, grepBody [0x61] BUFSIZE [0x61, newline, 0x62, 0x62] s0 = .ok s1 ∧ s1.m = 2 ∧
      s1.rest = [newline] ∧ strchr s1.mem newline (BUFSIZE - 3) 3 = .ok none := by
    rw [grepBody, grepLines, hq]
    dsimp only
    rw [hstr, if_pos hyes]
    exact ⟨_, rfl, rfl, rfl, rfl⟩
  obtain ⟨s1, hs1, hm, hrest, hfree⟩ := hbody
  have hchunk : chunkOf 1 s1 = [newline] := by
    rw [chunkOf, hrest, hm]
    rfl
  refine (grep_prints_matching [0x61] BUFSIZE (fun _ => 0) [[0x61], [0x62, 0x62]]
    [4, 1, 1, 1, 1] hline
    (by decide) le_rfl).2 ?_ (by decide)
  refine fun _ => ⟨⟨by decide, rfl⟩, fun s' hs' => ?_⟩
  obtain rfl := Except.ok.inj (hs1.symm.trans hs')
  refine fun _ => ⟨?_, fun s2 hs2 => allClear_of_rest ?_⟩
  · rw [hchunk]
    refine ⟨mem_singleton_self _, ?_⟩
    rw [hm]
    exact hfree
  · rw [grepBody_rest hs2, hchunk, hrest]
    rfl

/-- A file of one line, when the first read returns only one byte: it is forgotten, and the line
does not match without it. -/
theorem grep_loses_line :
    ∃ s, grep [0x61] BUFSIZE [1, 2, 1]
      { mem := fun _ => 0, rest := unlines [[0x61, 0x62]] } = .ok s ∧
      s.rest = [] ∧ s.out ≠ unlines ([[0x61, 0x62]].filter (matchText [0x61])) := by
  have hyes : matchText [0x61] [0x61, 0x62] = true := by
    simp [matchText, matchLoop, matchhere, caret, asterisk, dollar, dot]
  have hno : matchText [0x61] [0x62] = false := by
    simp [matchText, matchLoop, matchhere, caret, asterisk, dollar, dot]
  let s1 : Scan := { mem := Bytes.splice (fun _ => 0) 0 [0x61], rest := [0x62, newline] }
  have hfirst : grepBody [0x61] BUFSIZE [0x61]
      { mem := fun _ => 0, rest := unlines [[0x61, 0x62]] } = .ok s1 := rfl
  have hq : strchr (s1.receive [0x62, newline]).mem newline (BUFSIZE - 0) 0 = .ok (some 1) := rfl
  have hstr : stringAt (upd (s1.receive [0x62, newline]).mem 1 0) (BUFSIZE - 0) 0 = [0x62] := rfl
  have hsecond : ∃ s2, grepBody [0x61] BUFSIZE [0x62, newline] s1 = .ok s2 ∧ 0 ≤ s2.m ∧
      s2.rest = [] ∧ s2.out = [] := by
    rw [grepBody, grepLines, hq]
    dsimp only
    rw [hstr, hno]
    exact ⟨_, rfl, by decide, rfl, rfl⟩
  obtain ⟨s2, hs2, hm, hr, hout⟩ := hsecond
  refine ⟨s2, ?_, hr, ?_⟩
  · rw [grep_cons (by decide) (by decide) hfirst, grep_cons (by decide) (by decide) hs2]
    exact grep_done hm (by rw [chunkOf, hr, take_nil])
  · rw [hout, filter_cons_of_pos hyes]
    decide

end Run

end Xv6.User.Grep
