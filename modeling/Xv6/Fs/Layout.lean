import Xv6.Fs.Mkfs
import Xv6.Fs.Lookup

/-!
# The layout of the disk and the log

`Layout s` says that the disk has the geometry `mkfs` gives it and that each slot of the log holds
the contents of the block logged there. Below the log area `log_write` is then a plain store, and
`commit_trans` changes nothing.
-/

namespace Xv6

open Lib Prog

/-- `sb.size` of the disk. -/
def FSSIZE : Nat := 40960

/-- `sb.ninodes` of the disk. -/
def NINODES : Nat := 200

/-- The first block after the bitmap. -/
def DATASTART : Nat := 39

/-- The first block of the log area: `sb.size - sb.nlog`. -/
def LOGSTART : Nat := 40950

/-- Blocks a transaction may log. -/
def LOGCAP : Nat := 9

example : FSSIZE = Mkfs.size ∧ NINODES = Mkfs.ninodes ∧
    DATASTART = Mkfs.ninodes / IPB + 3 + Mkfs.bitblocks ∧ LOGSTART = Mkfs.size - Mkfs.nlog ∧
    LOGCAP = Mkfs.nlog - 1 := by decide

/-- The disk of `mkfs`, with a consistent log. -/
structure Layout (s : State) : Prop where
  disksize : s.disksize = FSSIZE
  start : s.log.start = LOGSTART
  logsize : s.log.size = LOGCAP + 1
  size : (getSuperblock (s.sector 1)).size = FSSIZE
  ninodes : (getSuperblock (s.sector 1)).ninodes = NINODES
  home : ∀ b ∈ s.log.lh, b < LOGSTART
  nodup : s.log.lh.Nodup
  length : s.log.lh.length ≤ LOGCAP
  slot : ∀ j b, s.log.lh[j]? = some b → s.sector (LOGSTART + j + 1) = s.sector b

/-- A transaction is active and may log `c` more blocks. -/
def Room (s : State) (c : Nat) : Prop := s.log.busy = true ∧ s.log.lh.length + c ≤ LOGCAP

/-! ### `log_write` -/

section Logged

variable {s : State} {b c : Nat} {data : Bytes}

@[simp] lemma logged_inode : (s.logged b data).inode = s.inode := rfl

lemma logged_lh :
    (s.logged b data).log.lh = if b ∈ s.log.lh then s.log.lh else s.log.lh ++ [b] := rfl

lemma mem_logged_lh : c ∈ (s.logged b data).log.lh ↔ c = b ∨ c ∈ s.log.lh := by
  rw [logged_lh]
  split_ifs with h
  · refine ⟨.inr, ?_⟩
    rintro (rfl | hc)
    exacts [h, hc]
  · simp [or_comm]

lemma logged_length_le : (s.logged b data).log.lh.length ≤ s.log.lh.length + 1 := by
  rw [logged_lh]
  split_ifs <;> simp

/-- A block that is logged already takes no further slot. -/
lemma logged_length_of_mem (h : b ∈ s.log.lh) :
    (s.logged b data).log.lh.length = s.log.lh.length := by
  rw [logged_lh, if_pos h]

lemma Room.mono {n m : Nat} (h : Room s n) (hm : m ≤ n) : Room s m :=
  ⟨h.1, (Nat.add_le_add_left hm _).trans h.2⟩

lemma Room.logged {n : Nat} (h : Room s (n + 1)) : Room (s.logged b data) n := by
  refine ⟨h.1, ?_⟩
  have h1 : (s.logged b data).log.lh.length ≤ _ := logged_length_le
  have h2 := h.2
  omega

lemma Layout.sector_logged (h : Layout s) (hc : c < LOGSTART) :
    (s.logged b data).sector c = upd s.sector b data c := by
  refine upd_ne fun hcs => ?_
  rw [h.start] at hcs
  omega

lemma Layout.sector_logged_same (h : Layout s) (hb : b < LOGSTART) :
    (s.logged b data).sector b = data := by
  rw [h.sector_logged hb, upd_same]

lemma Layout.sector_logged_ne (h : Layout s) (hc : c < LOGSTART) (hcb : c ≠ b) :
    (s.logged b data).sector c = s.sector c := by
  rw [h.sector_logged hc, upd_ne hcb]

/-- The slots of the log area after `log_write`. -/
lemma Layout.sector_slot (h : Layout s) (hb : b < LOGSTART) {j : Nat} :
    (s.logged b data).sector (LOGSTART + j + 1) =
      if j = logSlot s.log.lh b then data else s.sector (LOGSTART + j + 1) := by
  unfold State.logged
  rw [h.start]
  change upd (upd s.sector b data) (LOGSTART + logSlot s.log.lh b + 1) data
    (LOGSTART + j + 1) = _
  split_ifs with hj
  · rw [hj, upd_same]
  · rw [upd_ne (by omega), upd_ne (by omega)]

lemma Layout.logged (h : Layout s) (hb : b < LOGSTART) (h1 : b ≠ 1)
    (hlen : s.log.lh.length < LOGCAP) : Layout (s.logged b data) := by
  have hone : (s.logged b data).sector 1 = s.sector 1 :=
    h.sector_logged_ne (by decide) h1.symm
  refine ⟨h.disksize, h.start, h.logsize, by rw [hone]; exact h.size, by rw [hone]; exact h.ninodes,
    ?_, ?_, logged_length_le.trans hlen, ?_⟩
  · intro c hc
    rcases mem_logged_lh.mp hc with rfl | hc
    exacts [hb, h.home c hc]
  · rw [logged_lh]
    split_ifs with hm
    · exact h.nodup
    · exact List.nodup_append.mpr ⟨h.nodup, by simp, fun c hc d hd => by
        rintro rfl
        exact hm (by simpa using List.mem_singleton.mp hd ▸ hc)⟩
  · intro j c hj
    rw [h.sector_slot hb]
    -- the slot of `b` is the index of `b` in the new list, so it determines the block
    by_cases hjb : j = logSlot s.log.lh b
    · rw [if_pos hjb]
      have hcb : c = b := by
        rw [logged_lh] at hj
        split_ifs at hj with hm
        · rw [hjb, logSlot, List.getElem?_idxOf hm] at hj
          exact (Option.some.inj hj).symm
        · rw [hjb, logSlot, List.idxOf_of_notMem hm, List.getElem?_append_right le_rfl] at hj
          simpa using hj.symm
      rw [hcb, h.sector_logged_same hb]
    · rw [if_neg hjb]
      have hj' : s.log.lh[j]? = some c := by
        rw [logged_lh] at hj
        split_ifs at hj with hm
        · exact hj
        · rw [logSlot, List.idxOf_of_notMem hm] at hjb
          obtain ⟨hlt, -⟩ := List.getElem?_eq_some_iff.mp hj
          rw [List.length_append, List.length_singleton] at hlt
          rwa [List.getElem?_append_left (by omega)] at hj
      have hcb : c ≠ b := by
        rintro rfl
        obtain ⟨hlt, hget⟩ := List.getElem?_eq_some_iff.mp hj'
        exact hjb (by rw [logSlot, ← hget, List.Nodup.idxOf_getElem h.nodup])
      rw [h.slot j c hj', h.sector_logged_ne (h.home c (List.mem_of_getElem? hj')) hcb]

lemma logFull_iff (h : Layout s) : s.logFull = true ↔ LOGCAP ≤ s.log.lh.length := by
  have hs := h.logsize
  simp only [LOGCAP] at hs
  simp only [State.logFull, LOGSIZE, decide_eq_true_eq, hs, LOGCAP]
  omega

variable {Q : Unit → State → Prop} {E : Option Panic → State → Prop}

/-- The two panics of `log_write` lead to `E`. -/
def Refused (E : Option Panic → State → Prop) (s : State) : Prop :=
  E (some .tooBigATransaction) s ∧ E (some .writeOutsideOfTrans) s

/-- `log_write` stores the block if there is room for it, and else stops with one of its panics. -/
lemma wp_logWrite_room (h : Layout s) (hE : ¬ Room s 1 → Refused E s)
    (hQ : Room s 1 → Q () (s.logged b data)) : (logWrite b data).wp Q E s := by
  rw [logWrite, wp_act, if_pos rfl]
  by_cases hf : s.logFull = true
  · have hlen := (logFull_iff h).mp hf
    have hno : ¬ Room s 1 := fun hr => absurd hr.2 (by omega)
    simp only [hf, if_true, Bool.true_or]
    exact (hE hno).1
  · by_cases hb : s.log.busy = true
    · have hlt : s.log.lh.length < LOGCAP := Nat.lt_of_not_le fun hle =>
        hf ((logFull_iff h).mpr hle)
      simp only [hb, hf, Bool.not_true, Bool.or_false, Bool.false_eq_true, if_false, wp_ret]
      exact hQ ⟨hb, hlt⟩
    · have hno : ¬ Room s 1 := fun hr => hb hr.1
      simp only [hb, hf, Bool.not_false, Bool.or_true, Bool.false_eq_true, if_false, if_true]
      exact (hE hno).2

/-- `log_write` stores the block, or there is no room for it. -/
lemma wp_logWrite (h : Layout s) (hE : Room s 1 ∨ ∀ e s', E e s')
    (hQ : s.log.busy = true → s.log.lh.length < LOGCAP → Q () (s.logged b data)) :
    (logWrite b data).wp Q E s := by
  refine wp_logWrite_room h (fun hno => ?_) fun hr => hQ hr.1 hr.2
  rcases hE with hr | hE
  · exact absurd hr hno
  · exact ⟨hE _ _, hE _ _⟩

end Logged

/-! ### `commit_trans` -/

section Commit

variable {s : State}

/-- Copying the slots home changes nothing when they hold what is there. -/
lemma installTrans_eq_self (lh : List Nat) (tail : Nat) (s : State)
    (h : ∀ j b, lh[j]? = some b → s.sector (s.log.start + (tail + j) + 1) = s.sector b) :
    installTrans lh tail s = s := by
  induction lh generalizing tail with
  | nil => rfl
  | cons b lh ih =>
    have hb : s.sector (s.log.start + tail + 1) = s.sector b := h 0 b rfl
    rw [installTrans, hb, upd_eq_self]
    refine ih (tail + 1) fun j c hj => ?_
    rw [show tail + 1 + j = tail + (j + 1) by omega]
    exact h (j + 1) c hj

/-- `commit_trans` empties the log and writes only the header block. -/
lemma Layout.commit_eq (h : Layout s) : ∃ X, commit s =
    { s with sector := upd s.sector LOGSTART X, log := { s.log with lh := [] } } := by
  unfold commit
  split_ifs with hlh
  · refine ⟨s.sector LOGSTART, ?_⟩
    rw [upd_eq_self, ← hlh]
  · have hinst : installTrans (writeHead s).log.lh 0 (writeHead s) = writeHead s := by
      refine installTrans_eq_self _ _ _ fun j b hj => ?_
      have hb := h.home b (List.mem_of_getElem? hj)
      have hslot := h.slot j b hj
      unfold writeHead
      rw [h.start, Nat.zero_add]
      exact (upd_ne (by omega)).trans (hslot.trans (upd_ne (by omega)).symm)
    simp only [hinst]
    refine ⟨putHead [] (putHead s.log.lh (s.sector LOGSTART)), ?_⟩
    simp only [writeHead, h.start, upd_upd, upd_same]

/-- The disk work of `commit_trans` keeps the layout, and every block below the log area. -/
lemma Layout.commit (h : Layout s) : Layout (commit s) ∧ (commit s).log.lh = [] ∧
    (∀ c < LOGSTART, (commit s).sector c = s.sector c) ∧ (commit s).inode = s.inode ∧
    (commit s).file = s.file ∧ (commit s).proc = s.proc := by
  obtain ⟨X, hX⟩ := h.commit_eq
  have hsect : ∀ c < LOGSTART, (Xv6.commit s).sector c = s.sector c := by
    intro c hc
    rw [hX]
    exact upd_ne (Nat.ne_of_lt hc)
  have hone := hsect 1 (by decide)
  refine ⟨⟨?_, ?_, ?_, by rw [hone]; exact h.size, by rw [hone]; exact h.ninodes, ?_, ?_, ?_, ?_⟩,
    ?_, hsect, ?_, ?_, ?_⟩ <;> rw [hX]
  · exact h.disksize
  · exact h.start
  · exact h.logsize
  · simp
  · simp
  · simp
  · simp

end Commit

/-! ### Reading blocks -/

section Read

variable {s : State} {b : Nat} {β : Type} {g : Bytes → K β} {Q : β → State → Prop}
  {E : Option Panic → State → Prop}

lemma wp_bread (h : Layout s) (hb : b < FSSIZE) (hg : (g (s.sector b)).wp Q E s) :
    (bread ROOTDEV b >>= g).wp Q E s :=
  wp_bind.mpr (wp_of_run (run_bread rfl (h.disksize ▸ hb)) hg)

lemma wp_readsb (h : Layout s) {g : Superblock → K β}
    (hg : (g (getSuperblock (s.sector 1))).wp Q E s) : (readsb ROOTDEV >>= g).wp Q E s := by
  unfold readsb
  rw [bind_assoc]
  exact wp_bread h (by decide) hg

end Read

end Xv6
