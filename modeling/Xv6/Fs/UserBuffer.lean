import Xv6.Fs.Lookup

/-!
# The user buffer of `read`

`sys_read` checks its buffer with `argptr(1, &p, n)` and passes the length `n`, an `int`, down to
`readi`, which takes a `uint`. For `n ≥ 0` every byte stored lies in the buffer. A negative `n`
passes `argptr` when `p + n` does not wrap below zero, and `readi` then copies the rest of the file.
-/

namespace Xv6

open Lib Prog

/-- Descriptor `fd` of process `p` is open for reading on an inode file `f` that nobody holds
locked. `allocuvm` keeps the size of every process below `KERNBASE`. -/
structure ReadReady (s : State) (p : Nat) (fd : Int) (f : Nat) : Prop where
  fd_nonneg : 0 ≤ fd
  fd_lt : fd < NOFILE
  ofile : (s.proc p).ofile fd.toNat = some f
  readable : (s.file f).readable = true
  type : (s.file f).type = .inode
  ref : 1 ≤ (s.inode (s.file f).ip).ref
  busy : (s.inode (s.file f).ip).busy = false
  valid : (s.inode (s.file f).ip).valid = true
  size_lt : (s.inode (s.file f).ip).size < 2 ^ 32
  off_lt : (s.file f).off < 2 ^ 32
  sz_lt : (s.proc p).sz < KERNBASE

/-- The contents of inode `k` are all on the disk, as those of every file without holes. -/
def OnDisk (s : State) (k : Nat) : Prop :=
  (s.inode k).dev = ROOTDEV ∧ Mapped s k (s.inode k).size

/-- A call that stores `bytes` from address `ptr` on keeps to a buffer of `n` bytes in a process
of size `sz`. -/
def StaysIn (sz ptr : Nat) (n : Int) (bytes : List Byte) : Prop :=
  bytes.length ≤ n.toNat ∧ ∀ j < bytes.length,
    ptr ≤ (ptr + j) % 2 ^ 32 ∧ (ptr + j) % 2 ^ 32 < ptr + n.toNat ∧ (ptr + j) % 2 ^ 32 < sz

/-- `read` respects the user's buffer. -/
def ReadSafe (s : State) (p : Nat) (fd : Int) (ptr : Nat) (n : Int) : Prop :=
  ∀ r bytes s', (sysRead p fd ptr n).run s = .ok (r, bytes) s' →
    (r = -1 ∧ bytes = []) ∨ StaysIn (s.proc p).sz ptr n bytes

/-- A negative length that passes `argptr` and with which `readi` finds bytes to copy. -/
def Overruns (s : State) (p f ptr : Nat) (n : Int) : Prop :=
  n < 0 ∧ -n ≤ ptr ∧ ptr < (s.proc p).sz ∧ (s.inode (s.file f).ip).type ≠ T_DEV ∧
    (s.file f).off < (s.inode (s.file f).ip).size ∧ (s.file f).off < -n

/-! ### `argptr` and the length of `readi` -/

lemma argptr_eq_some {sz i a : Nat} {size : Int} (hsz : sz < KERNBASE) (hi : i < 2 ^ 32)
    (hlo : -2 ^ 31 ≤ size) (hhi : size < 2 ^ 31) :
    argptr sz i size = some a ↔ a = i ∧ i < sz ∧ 0 ≤ i + size ∧ i + size ≤ sz := by
  simp only [KERNBASE] at hsz
  unfold argptr
  split_ifs with h
  · simp only [false_iff]
    omega
  · simp only [Option.some.injEq]
    omega

lemma uint_of_int {n : Int} (hlo : -2 ^ 31 ≤ n) (hhi : n < 2 ^ 31) :
    (BitVec.ofInt 32 n).toNat = if 0 ≤ n then n.toNat else (n + 2 ^ 32).toNat := by
  rw [BitVec.toNat_ofInt]
  split_ifs <;> omega

lemma int32_uint {n : Int} (hlo : -2 ^ 31 ≤ n) (hhi : n < 2 ^ 31) :
    int32 (BitVec.ofInt 32 n).toNat = n := by
  rw [int32, BitVec.ofNat_toNat, BitVec.setWidth_eq, BitVec.toInt_ofInt_eq_self] <;> simp <;> omega

/-! ### The run of `sys_read` -/

variable {s : State} {p f ptr : Nat} {fd n : Int}

/-- `sys_read` fetches its descriptor and checks the buffer. -/
lemma ReadReady.run_sysRead (h : ReadReady s p fd f) :
    (sysRead p fd ptr n).run s = match argptr (s.proc p).sz ptr n with
      | none => .ok (-1, []) s
      | some _ => (fileread p f n).run s := by
  have hfd : ¬ (fd < 0 ∨ (NOFILE : Int) ≤ fd) := by
    have := h.fd_nonneg
    have := h.fd_lt
    omega
  have harg : (argfd p fd).run s = .ok (some f) s := by
    simp only [argfd, if_neg hfd, run_read, h.ofile]
  refine run_bind_ok harg (run_bind_ok (run_read _) ?_)
  cases argptr (s.proc p).sz ptr n <;> rfl

/-- `fileread` locks the inode, reads, moves the offset and unlocks. -/
lemma ReadReady.run_fileread (h : ReadReady s p fd f) (ht : (s.inode (s.file f).ip).type ≠ T_DEV)
    (hd : OnDisk s (s.file f).ip) :
    ∃ s1 s', (fileread p f n).run s = .ok
      (match readiLen (s.inode (s.file f).ip).size (s.file f).off (BitVec.ofInt 32 n).toNat with
        | none => (-1, [])
        | some m => (int32 m, fileBytes s1 (s.file f).ip (s.file f).off m)) s' := by
  set k := (s.file f).ip with hk
  set s1 := s.setInode k fun ip => { ip with busy := true } with hs1
  have hk1 : s1.inode k = { s.inode k with busy := true } := State.setInode_inode_same ..
  have hmap : Mapped s1 k (s.inode k).size := by
    intro bn hbn
    obtain ⟨a, ha, hlt⟩ := hd.2 bn hbn
    refine ⟨a, ?_, hlt⟩
    rw [← ha]
    exact bmapFind_congr rfl rfl (fun i => by rw [hk1])
      (by rw [hs1, State.setInode_inode_ne _ _ (Nat.succ_ne_self k)])
  have hread : (readi p k (s.file f).off (BitVec.ofInt 32 n).toNat).run s1 = .ok
      (match readiLen (s.inode k).size (s.file f).off (BitVec.ofInt 32 n).toNat with
        | none => (-1, [])
        | some m => (int32 m, fileBytes s1 k (s.file f).off m)) s1 := by
    cases hlen : readiLen (s.inode k).size (s.file f).off (BitVec.ofInt 32 n).toNat with
    | none =>
      refine run_bind_ok (run_read _) ?_
      rw [hk1, if_neg ht, hlen]
      rfl
    | some m =>
      have hm := readiLen_le hlen h.off_lt (by omega)
      refine run_readi (by rw [hk1]; exact hd.1) (by rw [hk1]; exact ht)
        (by rw [hk1]; exact hlen) fun bn hbn => hmap bn (by omega)
  have hrun : ∀ r : Int × List Byte, ∃ s', (do
      K.when (0 < r.1) do
        write fun s => s.setFile f fun fl => { fl with off := (fl.off + r.1.toNat) % 2 ^ 32 }
      iunlock k
      pure (r.1, r.2) : K (Int × List Byte)).run s1 = .ok r s' := by
    intro r
    unfold K.when
    split_ifs
    · refine ⟨_, run_bind_ok (run_write _) (run_bind_ok (run_iunlock ?_ ?_) rfl)⟩
      · exact hk1 ▸ h.ref
      · exact congrArg Inode.busy hk1
    · refine ⟨_, run_bind_ok (run_pure _ _) (run_bind_ok (run_iunlock ?_ ?_) rfl)⟩
      · exact hk1 ▸ h.ref
      · exact congrArg Inode.busy hk1
  obtain ⟨s', hs'⟩ := hrun (match readiLen (s.inode k).size (s.file f).off
    (BitVec.ofInt 32 n).toNat with
    | none => (-1, [])
    | some m => (int32 m, fileBytes s1 k (s.file f).off m))
  refine ⟨s1, s', run_bind_ok (run_read _) ?_⟩
  rw [h.readable, h.type]
  exact run_bind_ok (run_ilock_valid h.ref h.busy h.valid)
    (run_bind_ok (run_read _) (run_bind_ok hread hs'))

/-- `consoleread` stores no more characters than it was asked for. -/
lemma consolereadLoop_length (p target : Nat) : ∀ (n : Nat) (s : State),
    (consolereadLoop p target n).wp (fun r _ => r.2.length ≤ n) (fun _ _ => True) s := by
  intro n
  induction n with
  | zero => intro s; exact Nat.le_refl 0
  | succ n ih =>
    intro s
    refine wp_skip fun c s' => ?_
    cases c with
    | none => exact Nat.zero_le _
    | some c =>
      dsimp only
      split_ifs
      · exact Nat.zero_le _
      · exact Nat.succ_le_succ (Nat.zero_le n)
      · exact wp_call (ih s') fun r _ hr => wp_pure.mpr (Nat.succ_le_succ hr)

/-- `readi` stores exactly the bytes its loop is asked for. -/
lemma readiLoop_length (k : Nat) (fuel : Nat) : ∀ (off n : Nat) (s : State), n ≤ fuel →
    (readiLoop k off n fuel).wp (fun bytes _ => bytes.length = n) (fun _ _ => True) s := by
  induction fuel with
  | zero => intro off n s hn; exact (Nat.le_zero.mp hn).symm
  | succ fuel ih =>
    intro off n s hn
    unfold readiLoop
    split_ifs with h0
    · exact h0.symm
    · refine wp_skip fun _ _ => wp_skip fun _ _ => wp_skip fun bp s' => ?_
      have hm : 0 < min n (BSIZE - off % BSIZE) := by simp only [BSIZE]; omega
      refine wp_call (ih _ _ s' (by omega)) fun rest _ hrest => wp_pure.mpr ?_
      rw [List.length_append, hrest, Bytes.slice, List.length_map, List.length_range]
      omega

/-- What `readi` stores for a length `n` that is an `int`: up to `n` characters from the console,
and of a file or directory as many bytes as it finds for the length taken as a `uint`. -/
def Stored (ip : Inode) (off : Nat) (n : Int) (r : Int × List Byte) : Prop :=
  (r.1 = -1 ∧ r.2 = []) ∨ if ip.type = T_DEV then r.2.length ≤ n.toNat
    else readiLen ip.size off (BitVec.ofInt 32 n).toNat = some r.2.length

lemma readi_stored {k off : Nat} (hlo : -2 ^ 31 ≤ n) (hhi : n < 2 ^ 31) :
    (readi p k off (BitVec.ofInt 32 n).toNat).wp (fun r _ => Stored (s.inode k) off n r)
      (fun _ _ => True) s := by
  unfold Stored
  rw [readi, wp_read]
  split_ifs
  · rw [consoleread, int32_uint hlo hhi]
    refine wp_skip fun _ s' => wp_call (consolereadLoop_length p _ _ s') fun r _ hr => ?_
    exact wp_skip fun _ _ => Or.inr hr
  · exact Or.inl ⟨rfl, rfl⟩
  · cases readiLen (s.inode k).size off (BitVec.ofInt 32 n).toNat with
    | none => exact Or.inl ⟨rfl, rfl⟩
    | some m =>
      refine wp_call (readiLoop_length _ m _ m _ le_rfl) fun bytes _ hb => Or.inr ?_
      exact congrArg some hb.symm

lemma ReadReady.fileread_stored (h : ReadReady s p fd f) (hlo : -2 ^ 31 ≤ n) (hhi : n < 2 ^ 31) :
    (fileread p f n).wp (fun r _ => Stored (s.inode (s.file f).ip) (s.file f).off n r)
      (fun _ _ => True) s := by
  rw [fileread, wp_read, h.readable, h.type]
  refine wp_bind.mpr (wp_of_run (run_ilock_valid h.ref h.busy h.valid) (wp_read.mpr ?_))
  refine wp_call (readi_stored hlo hhi) fun r _ hr => wp_skip fun _ _ => wp_skip fun _ _ => ?_
  rwa [State.setInode_inode_same] at hr

/-! ### Buffers of `read` -/

/-- No negative length that passes `argptr` finds bytes to copy: the buffer is respected. -/
lemma ReadReady.safe (h : ReadReady s p fd f) (hptr : ptr < 2 ^ 32) (hlo : -2 ^ 31 ≤ n)
    (hhi : n < 2 ^ 31) (hn : ¬ Overruns s p f ptr n) : ReadSafe s p fd ptr n := by
  intro r bytes s' hrun
  rw [h.run_sysRead] at hrun
  cases harg : argptr (s.proc p).sz ptr n with
  | none =>
    rw [harg] at hrun
    injection hrun with hrun
    injection hrun with h1 h2
    exact Or.inl ⟨h1.symm, h2.symm⟩
  | some a =>
    rw [harg] at hrun
    dsimp only at hrun
    obtain ⟨-, hlt, hge, hle⟩ := (argptr_eq_some h.sz_lt hptr hlo hhi).mp harg
    have hsz : (s.proc p).sz < 0x80000000 := h.sz_lt
    -- A list no longer than `n` stays in the buffer: with `n ≥ 0`, `argptr` has checked its end.
    have hstay : bytes.length ≤ n.toNat → StaysIn (s.proc p).sz ptr n bytes :=
      fun hb => ⟨hb, fun j hj => by omega⟩
    have hoff := h.off_lt
    rcases wp_ok (h.fileread_stored hlo hhi) hrun with hnone | hlen
    · exact Or.inl hnone
    · right
      apply hstay
      split_ifs at hlen with ht
      · exact hlen
      · rw [uint_of_int hlo hhi] at hlen
        split_ifs at hlen with hn0
        · exact (readiLen_le hlen hoff (by omega)).1
        · -- a negative length: `off + n` wraps, or there is nothing left to read
          have hn : ¬ ((s.file f).off < (s.inode (s.file f).ip).size ∧ (s.file f).off < -n) :=
            fun h => hn ⟨by omega, by omega, hlt, ht, h⟩
          unfold readiLen at hlen
          split_ifs at hlen <;> simp only [Option.some.injEq] at hlen <;> omega

/-- A negative length that passes `argptr` and finds bytes to copy overruns the buffer. -/
lemma ReadReady.not_safe (h : ReadReady s p fd f) (hptr : ptr < 2 ^ 32) (hlo : -2 ^ 31 ≤ n)
    (hd : OnDisk s (s.file f).ip) (hn : Overruns s p f ptr n) : ¬ ReadSafe s p fd ptr n := by
  intro hsafe
  obtain ⟨hneg, hge, hlt, ht, hoff, hwrap⟩ := hn
  have hhi : n < 2 ^ 31 := by omega
  have harg := (argptr_eq_some h.sz_lt hptr hlo hhi).mpr ⟨rfl, hlt, by omega, by omega⟩
  obtain ⟨s1, s2, hread⟩ := h.run_fileread (n := n) ht hd
  -- `readi` reads to the end of the file, or as many bytes as `(uint)n`.
  obtain ⟨m, hm, hlen⟩ : ∃ m, 0 < m ∧ readiLen (s.inode (s.file f).ip).size (s.file f).off
      (BitVec.ofInt 32 n).toNat = some m := by
    have hsize := h.size_lt
    rw [uint_of_int hlo hhi, if_neg (by omega)]
    unfold readiLen
    rw [if_neg (by omega)]
    split_ifs
    · exact ⟨_, by omega, rfl⟩
    · exact ⟨_, by omega, rfl⟩
  rw [hlen] at hread
  have hrun : (sysRead p fd ptr n).run s = _ := h.run_sysRead
  rw [harg, hread] at hrun
  rcases hsafe _ _ _ hrun with ⟨-, hnil⟩ | ⟨hle, -⟩
  · rw [← List.length_eq_zero_iff, length_fileBytes] at hnil
    omega
  · rw [length_fileBytes] at hle
    omega

/-- `read` keeps to the user's buffer unless the length is a negative number that passes `argptr`
while `readi` still finds bytes to copy, and then, on a file whose contents are on the disk, it
does not. The range that `argptr` accepts, taken as the unsigned length its callee uses, lies in
the process exactly when the length is not negative. -/
theorem read_respects_buffer (h : ReadReady s p fd f) (hptr : ptr < 2 ^ 32) (hlo : -2 ^ 31 ≤ n)
    (hhi : n < 2 ^ 31) :
    (¬ Overruns s p f ptr n → ReadSafe s p fd ptr n) ∧
    (OnDisk s (s.file f).ip → (ReadSafe s p fd ptr n ↔ ¬ Overruns s p f ptr n)) ∧
    (argptr (s.proc p).sz ptr n = some ptr →
      (ptr + (BitVec.ofInt 32 n).toNat ≤ (s.proc p).sz ↔ 0 ≤ n)) := by
  refine ⟨h.safe hptr hlo hhi,
    fun hd => ⟨fun hs hn => h.not_safe hptr hlo hd hn hs, h.safe hptr hlo hhi⟩, fun harg => ?_⟩
  have hsz : (s.proc p).sz < 0x80000000 := h.sz_lt
  obtain ⟨-, hlt, hge, hle⟩ := (argptr_eq_some h.sz_lt hptr hlo hhi).mp harg
  rw [uint_of_int hlo hhi]
  split_ifs <;> omega

/-! ### A process that reads with length `-1` -/

/-- A file of ten bytes, in block 500, open for reading as descriptor 0 of process 1, whose size is
one page. -/
def tenBytes : State where
  disksize := 1000
  sector := fun _ _ => 65
  log := { start := 990, size := 10, busy := false, lh := [] }
  inode := fun k => if k = 0 then
    { dev := ROOTDEV, inum := 2, ref := 1, valid := true, type := T_FILE, nlink := 1, size := 10,
      addrs := fun i => if i = 0 then 500 else 0 } else {}
  file := fun f => if f = 0 then { type := .inode, ref := 1, readable := true } else {}
  proc := fun p => if p = 1 then { sz := 4096, ofile := fun fd => if fd = 0 then some 0 else none }
    else {}
  input := []

lemma tenBytes_readReady : ReadReady tenBytes 1 0 0 := by constructor <;> decide

lemma tenBytes_onDisk : OnDisk tenBytes 0 := by
  refine ⟨rfl, fun bn hbn => ⟨500, ?_, by decide⟩⟩
  obtain rfl : bn = 0 := by simp only [BSIZE, tenBytes, if_true] at hbn; omega
  rfl

/-- `read(0, 100, -1)` stores the ten bytes of the file at address 100. -/
theorem read_minus_one_overruns :
    ¬ ReadSafe tenBytes 1 0 100 (-1) ∧ argptr (tenBytes.proc 1).sz 100 (-1) = some 100 :=
  ⟨tenBytes_readReady.not_safe (by decide) (by decide) tenBytes_onDisk
    ⟨by decide, by decide, by decide, by decide, by decide, by decide⟩, by decide⟩

/-- `read(0, 100, 8)` on the same file keeps to the buffer. -/
theorem read_eight_respects_buffer : ReadSafe tenBytes 1 0 100 8 :=
  (read_respects_buffer tenBytes_readReady (by decide) (by decide) (by decide)).1
    fun h => absurd h.1 (by decide)

end Xv6
