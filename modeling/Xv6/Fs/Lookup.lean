import Xv6.Fs.Sysfile

/-!
# Reading a file whose blocks are allocated

`bmapFind` follows the block map of a cached inode without allocating. Where it finds a block, so
does `bmap`, and it leaves the state as it was; `readi` of a range that is mapped returns the bytes
of those blocks and changes nothing.
-/

namespace Xv6

open Lib Prog

/-! ### Searching a table -/

section Find

variable {f : Nat → Bool} {n i k : Nat}

lemma findFrom_some (h : findFrom f i n = some k) :
    i ≤ k ∧ k < i + n ∧ f k = true ∧ ∀ j, i ≤ j → j < k → f j = false := by
  induction n generalizing i with
  | zero => simp [findFrom] at h
  | succ n ih =>
    unfold findFrom at h
    split_ifs at h with hf
    · obtain rfl := Option.some.inj h
      exact ⟨le_rfl, by omega, hf, fun j h1 h2 => by omega⟩
    · obtain ⟨h1, h2, h3, h4⟩ := ih h
      refine ⟨by omega, by omega, h3, fun j hj hjk => ?_⟩
      rcases Nat.eq_or_lt_of_le hj with rfl | hj
      exacts [by simpa using hf, h4 j hj hjk]

lemma findFrom_none (h : findFrom f i n = none) : ∀ j, i ≤ j → j < i + n → f j = false := by
  induction n generalizing i with
  | zero => intro j h1 h2; omega
  | succ n ih =>
    unfold findFrom at h
    split_ifs at h with hf
    intro j hj hjn
    rcases Nat.eq_or_lt_of_le hj with rfl | hj
    exacts [by simpa using hf, ih h j hj (by omega)]

/-- The first index with the property is found. -/
lemma findFrom_eq_some (hk : k < n) (hf : f k = true) (hmin : ∀ j < k, f j = false) :
    findFrom f 0 n = some k := by
  cases h : findFrom f 0 n with
  | none =>
    rw [findFrom_none h k (Nat.zero_le k) (by omega)] at hf
    exact Bool.noConfusion hf
  | some k' =>
    obtain ⟨-, -, hk', hmin'⟩ := findFrom_some h
    rcases Nat.lt_trichotomy k k' with hlt | rfl | hgt
    · rw [hmin' k (Nat.zero_le k) hlt] at hf
      exact Bool.noConfusion hf
    · rfl
    · rw [hmin k' hgt] at hk'
      exact Bool.noConfusion hk'

end Find

/-! ### Blocks and locks -/

section Run

variable {s : State}

lemma run_bread {dev b : Nat} (hd : dev = ROOTDEV) (hb : b < s.disksize) :
    (bread dev b).run s = .ok (s.sector b) s := by
  simp [bread, run_act, hd, Nat.not_le.mpr hb]

lemma run_ilock_valid {k : Nat} (hr : 1 ≤ (s.inode k).ref) (hb : (s.inode k).busy = false)
    (hv : (s.inode k).valid = true) :
    (ilock k).run s = .ok () (s.setInode k fun ip => { ip with busy := true }) := by
  have hr' : ¬ (s.inode k).ref < 1 := by omega
  simp [ilock, run_bind, Res.andThen, run_act, hr', hb, hv, K.when_neg]

lemma run_iunlock {k : Nat} (hr : 1 ≤ (s.inode k).ref) (hb : (s.inode k).busy = true) :
    (iunlock k).run s = .ok () (s.setInode k fun ip => { ip with busy := false }) := by
  have hr' : ¬ (s.inode k).ref < 1 := by omega
  simp [iunlock, run_bind, Res.andThen, hr', hb]

/-- The `iput` that does not free the inode only drops a reference. -/
lemma run_iput_keep {k : Nat} (hl : (s.inode k).lastUnlinked = false) :
    (iput k).run s = .ok () (s.setInode k fun ip => { ip with ref := ip.ref - 1 }) := by
  simp [iput, run_act, hl, State.setInode, K.when_neg]

end Run

/-! ### The contiguous inode array -/

lemma addrsGet_of_lt {ic : Nat → Inode} {k i : Nat} (hi : i < NDIRECT + 1) :
    addrsGet ic k i = (ic k).addrs i := by
  have hi : i < 12 := hi
  have h1 : (19 * k + 7 + i) / 19 = k := by omega
  have h2 : (19 * k + 7 + i) % 19 = i + 7 := by omega
  simp [addrsGet, INODEWORDS, ADDRSWORD, h1, h2, Inode.word]

lemma addrsSet_of_lt (ic : Nat → Inode) (k : Nat) {i : Nat} (hi : i < NDIRECT + 1) (v : Nat) :
    addrsSet ic k i v = upd ic k { ic k with addrs := upd (ic k).addrs i v } := by
  have hi : i < 12 := hi
  have h1 : (19 * k + 7 + i) / 19 = k := by omega
  have h2 : (19 * k + 7 + i) % 19 = i + 7 := by omega
  simp [addrsSet, INODEWORDS, ADDRSWORD, h1, h2, Inode.setWord]

/-- The word after `addrs` is the `dev` of the next entry of the cache. -/
lemma addrsGet_last (ic : Nat → Inode) (k : Nat) :
    addrsGet ic k (NDIRECT + 1) = (ic (k + 1)).dev := by
  have h1 : (19 * k + 7 + 12) / 19 = k + 1 := by omega
  have h2 : (19 * k + 7 + 12) % 19 = 0 := by omega
  simp [addrsGet, INODEWORDS, ADDRSWORD, h1, h2, Inode.word]

/-! ### The block map without allocation -/

/-- A block address, if there is one. -/
def nonzero (n : Nat) : Option Nat := if n = 0 then none else some n

/-- Entry `i` of the pointer block `b`. -/
def entryFind (s : State) (b i : Nat) : Option Nat :=
  if b < s.disksize then nonzero ((s.sector b).le (4 * i) 4) else none

/-- The block `bmap` finds for block `bn` of inode `k`, if it need not allocate. -/
def bmapFind (s : State) (k bn : Nat) : Option Nat :=
  if bn < NDIRECT then nonzero (addrsGet s.inode k bn)
  else if bn - NDIRECT < NINDIRECT then
    (nonzero (addrsGet s.inode k NDIRECT)).bind fun b => entryFind s b (bn - NDIRECT)
  else if bn - NDIRECT - NINDIRECT < NINDIRECT * NINDIRECT then
    ((nonzero (addrsGet s.inode k (NDIRECT + 1))).bind fun b =>
      entryFind s b ((bn - NDIRECT - NINDIRECT) / NINDIRECT)).bind fun b =>
        entryFind s b ((bn - NDIRECT - NINDIRECT) % NINDIRECT)
  else none

lemma nonzero_eq_some {n a : Nat} : nonzero n = some a ↔ n = a ∧ a ≠ 0 := by
  unfold nonzero
  split_ifs with h
  · simp only [false_iff, not_and, not_not]
    intro h'
    omega
  · simp only [Option.some.injEq]
    omega

lemma run_bmapAddr {s : State} {k i a : Nat} (h : nonzero (addrsGet s.inode k i) = some a) :
    (bmapAddr k i).run s = .ok a s := by
  obtain ⟨h1, h2⟩ := nonzero_eq_some.mp h
  simp [bmapAddr, run_bind, Res.andThen, bmapTest, h1, h2]

lemma run_bmapEntry {s : State} {dev b i a : Nat} (hd : dev = ROOTDEV)
    (h : entryFind s b i = some a) : (bmapEntry dev b i).run s = .ok a s := by
  unfold entryFind at h
  split_ifs at h with hb
  obtain ⟨h1, h2⟩ := nonzero_eq_some.mp h
  refine run_bind_ok (run_bread hd hb) (run_bind_ok (run_modify _ _ _) ?_)
  rw [h1, if_neg h2]
  rfl

/-- Where `bmapFind` finds a block, `bmap` returns it and changes nothing. -/
lemma run_bmap {s : State} {k bn a : Nat} (hd : (s.inode k).dev = ROOTDEV)
    (h : bmapFind s k bn = some a) : (bmap k bn).run s = .ok a s := by
  unfold bmapFind at h
  refine run_bind_ok (run_read _) ?_
  split_ifs at h ⊢ with h1 h2 h3
  · exact run_bmapAddr h
  · obtain ⟨b, hb, h⟩ := Option.bind_eq_some_iff.mp h
    exact run_bind_ok (run_bmapAddr hb) (run_bmapEntry hd h)
  · obtain ⟨c, hc, h⟩ := Option.bind_eq_some_iff.mp h
    obtain ⟨b, hb, hc⟩ := Option.bind_eq_some_iff.mp hc
    exact run_bind_ok (run_bmapAddr hb) (run_bind_ok (run_bmapEntry hd hc) (run_bmapEntry hd h))

/-- `bmapFind` depends on the sectors, and of the inode cache on the words it may index. -/
lemma bmapFind_congr {s s' : State} {k bn : Nat} (hd : s'.disksize = s.disksize)
    (hs : s'.sector = s.sector) (ha : ∀ i, (s'.inode k).addrs i = (s.inode k).addrs i)
    (hn : (s'.inode (k + 1)).dev = (s.inode (k + 1)).dev) :
    bmapFind s' k bn = bmapFind s k bn := by
  have hget : ∀ i ≤ NDIRECT + 1, addrsGet s'.inode k i = addrsGet s.inode k i := by
    intro i hi
    rcases Nat.lt_or_ge i (NDIRECT + 1) with h | h
    · rw [addrsGet_of_lt h, addrsGet_of_lt h, ha]
    · obtain rfl : i = NDIRECT + 1 := Nat.le_antisymm hi h
      rw [addrsGet_last, addrsGet_last, hn]
  unfold bmapFind entryFind
  rw [hd, hs, hget NDIRECT (by simp), hget (NDIRECT + 1) le_rfl]
  split_ifs with h
  · rw [hget bn (by omega)]
  all_goals rfl

/-! ### Reading -/

/-- The first `n` bytes of inode `k` lie in allocated blocks. -/
def Mapped (s : State) (k n : Nat) : Prop :=
  ∀ bn, bn * BSIZE < n → ∃ a, bmapFind s k bn = some a ∧ a < s.disksize

/-- Byte `o` of the file of inode `k`. -/
def fileByte (s : State) (k o : Nat) : Byte :=
  s.sector ((bmapFind s k (o / BSIZE)).getD 0) (o % BSIZE)

/-- Bytes `off` to `off + n - 1` of the file of inode `k`. -/
def fileBytes (s : State) (k off n : Nat) : List Byte :=
  (List.range n).map fun i => fileByte s k (off + i)

@[simp] lemma length_fileBytes (s : State) (k off n : Nat) :
    (fileBytes s k off n).length = n := by simp [fileBytes]

lemma fileBytes_add (s : State) (k off m n : Nat) :
    fileBytes s k off (m + n) = fileBytes s k off m ++ fileBytes s k (off + m) n := by
  simp [fileBytes, List.range_add, Function.comp_def, Nat.add_assoc]

/-- The bytes of one block, as `readi` copies them. -/
lemma slice_eq_fileBytes {s : State} {k off m a : Nat} (h : bmapFind s k (off / BSIZE) = some a)
    (hm : off % BSIZE + m ≤ BSIZE) :
    (s.sector a).slice (off % BSIZE) m = fileBytes s k off m := by
  apply List.map_congr_left
  intro i hi
  have hi := List.mem_range.mp hi
  simp only [BSIZE] at *
  have h1 : (off + i) / 512 = off / 512 := by omega
  have h2 : (off + i) % 512 = off % 512 + i := by omega
  rw [fileByte, BSIZE, h1, h2, h, Option.getD_some]

lemma run_readiLoop {s : State} {k : Nat} (hd : (s.inode k).dev = ROOTDEV) (fuel : Nat) :
    ∀ off n, n ≤ fuel → Mapped s k (off + n) →
      (readiLoop k off n fuel).run s = .ok (fileBytes s k off n) s := by
  induction fuel with
  | zero =>
    intro off n hn _
    obtain rfl : n = 0 := by omega
    rfl
  | succ fuel ih =>
    intro off n hn hmap
    unfold readiLoop
    split_ifs with h0
    · subst h0; rfl
    · obtain ⟨a, ha, hlt⟩ := hmap (off / BSIZE) (by simp only [BSIZE]; omega)
      set m := min n (BSIZE - off % BSIZE) with hm
      have hm0 : 0 < m := by simp only [BSIZE] at hm; omega
      refine run_bind_ok (run_read _) (run_bind_ok (run_bmap hd ha)
        (run_bind_ok (run_bread hd hlt) (run_bind_ok (ih (off + m) (n - m) (by omega) ?_) ?_)))
      · rwa [show off + m + (n - m) = off + n by omega]
      · rw [run_pure, slice_eq_fileBytes ha (by simp only [BSIZE] at *; omega), ← fileBytes_add,
          show m + (n - m) = n by omega]

/-- `readi` copies no more than it was asked for, and nothing past the end of the file. -/
lemma readiLen_le {size off n m : Nat} (h : readiLen size off n = some m) (hoff : off < 2 ^ 32)
    (hlen : n < 2 ^ 32) : m ≤ n ∧ off + m ≤ size := by
  unfold readiLen at h
  split_ifs at h <;> simp only [Option.some.injEq] at h <;> omega

/-- `readi` of a mapped file that is no device returns the bytes of the file. -/
lemma run_readi {s : State} {p k off n n' : Nat} (hd : (s.inode k).dev = ROOTDEV)
    (ht : (s.inode k).type ≠ T_DEV) (hlen : readiLen (s.inode k).size off n = some n')
    (hmap : Mapped s k (off + n')) :
    (readi p k off n).run s = .ok (int32 n', fileBytes s k off n') s := by
  refine run_bind_ok (run_read _) ?_
  rw [if_neg ht, hlen]
  exact run_bind_ok (run_readiLoop hd n' off n' le_rfl hmap) rfl

end Xv6
