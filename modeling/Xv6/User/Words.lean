import Xv6.User.Grammar

/-!
# The words of a command

`nulterminate` writes a NUL at the end of every word of the tree. The character there does not
belong to any word, so it is the only one that changes for the word, and all words can be read as C
strings. -/

namespace Xv6.User.Sh

open Lib Prog List

/-- The words of a tree: arguments and names of files. -/
def Tree.words : Tree → List Word
  | .exec argv => argv
  | .redir cmd file _ _ => cmd.words ++ [file]
  | .pipe left right => left.words ++ right.words
  | .list left right => left.words ++ right.words
  | .back cmd => cmd.words

/-- The nodes of type `EXEC` in a tree. -/
def Cmd.execs : Cmd → List Nat
  | .exec cmd => [cmd]
  | .redir cmd _ _ _ _ => cmd.execs
  | .pipe left right => left.execs ++ right.execs
  | .list left right => left.execs ++ right.execs
  | .back cmd => cmd.execs

/-- The names of files in a tree. -/
def Cmd.files : Cmd → List Word
  | .exec _ => []
  | .redir cmd file efile _ _ => cmd.files ++ [(file, efile)]
  | .pipe left right => left.files ++ right.files
  | .list left right => left.files ++ right.files
  | .back cmd => cmd.files

/-- The characters `cs` are the C string at `q`. -/
structure IsString (buf : Bytes) (q : Nat) (cs : List Byte) : Prop where
  chars : ∀ i < cs.length, cs[i]? = some (buf (q + i))
  nonzero : ∀ c ∈ cs, c ≠ 0
  nul : buf (q + cs.length) = 0

/-- The word is one that `gettoken` finds in the line `b`, and the C string at its start in `buf`
has its characters. -/
def Recovered (b : List Byte) (buf : Bytes) (w : Word) : Prop :=
  scan b w.1 = (.word, w.2) ∧ IsString buf w.1 ((b.drop w.1).take (w.2 - w.1))

section Derived

variable {us : List Token} {rs rs' : List Redir} {ws : List Word} {t : Tree} {w : Word}

/-- A word is one of the tokens. -/
def Among (us : List Token) (w : Word) : Prop := Token.word w.1 w.2 ∈ us

lemma mem_words_wrap : w ∈ (wrap t rs).words ↔ w ∈ t.words ∨ w ∈ rs.map Redir.file := by
  induction rs generalizing t with
  | nil => simp [wrap]
  | cons r rs ih =>
    change w ∈ (wrap (.redir t r.file r.mode r.fd) rs).words ↔ _
    rw [ih, Tree.words, mem_append, mem_singleton, map_cons, mem_cons, or_assoc]

lemma words_backs (k : Nat) (t : Tree) : (Tree.back^[k] t).words = t.words := by
  induction k generalizing t with
  | zero => rfl
  | succ k ih => exact ih (.back t)

lemma Redirs.among (h : Redirs us rs) : ∀ w ∈ rs.map Redir.file, Among us w := by
  induction h with
  | nil => simp
  | @cons op q eq mode fd ts rs _ _ ih =>
    intro w hw
    rcases mem_cons.mp hw with rfl | hw
    · exact mem_cons_of_mem _ (mem_cons_self ..)
    · exact mem_cons_of_mem _ (mem_cons_of_mem _ (ih w hw))

lemma Args.among (h : Args us ws rs) :
    (∀ w ∈ ws, Among us w) ∧ ∀ w ∈ rs.map Redir.file, Among us w := by
  induction h with
  | nil => simp
  | @cons q eq ts us ws rs rs' hr _ ih =>
    refine ⟨fun w hw => ?_, fun w hw => ?_⟩
    · rcases mem_cons.mp hw with rfl | hw
      · exact mem_cons_self ..
      · exact mem_cons_of_mem _ (mem_append_right _ (ih.1 w hw))
    · rw [map_append] at hw
      rcases mem_append.mp hw with hw | hw
      · exact mem_cons_of_mem _ (mem_append_left _ (hr.among w hw))
      · exact mem_cons_of_mem _ (mem_append_right _ (ih.2 w hw))

mutual

theorem Line.among {us : List Token} {t : Tree} : Line us t → ∀ w ∈ t.words, Among us w
  | .last k h => fun w hw => by
    rw [words_backs] at hw
    exact mem_append_left _ (h.among w hw)
  | .list k h hr => fun w hw => by
    rw [Tree.words, words_backs] at hw
    rcases mem_append.mp hw with hw | hw
    · exact mem_append_left _ (h.among w hw)
    · exact mem_append_right _ (mem_append_right _ (mem_cons_of_mem _ (hr.among w hw)))

theorem Pipe.among {us : List Token} {t : Tree} : Pipe us t → ∀ w ∈ t.words, Among us w
  | .last h => h.among
  | .pipe h hr => fun w hw => by
    rcases mem_append.mp hw with hw | hw
    · exact mem_append_left _ (h.among w hw)
    · exact mem_append_right _ (mem_cons_of_mem _ (hr.among w hw))

theorem Exec.among {us : List Token} {t : Tree} : Exec us t → ∀ w ∈ t.words, Among us w
  | .block h hr => fun w hw => by
    rcases mem_words_wrap.mp hw with hw | hw
    · exact mem_cons_of_mem _ (mem_append_left _ (h.among w hw))
    · exact mem_cons_of_mem _ (mem_append_right _ (mem_cons_of_mem _ (hr.among w hw)))
  | .simple hr h _ => fun w hw => by
    rcases mem_words_wrap.mp hw with hw | hw
    · exact mem_append_right _ (h.among.1 w hw)
    · rw [map_append] at hw
      rcases mem_append.mp hw with hw | hw
      · exact mem_append_left _ (hr.among w hw)
      · exact mem_append_right _ (h.among.2 w hw)

end

end Derived

/-! ### The line after `nulterminate` -/

section Nul

variable {execs : List Execcmd} {cmd : Cmd} {t : Tree} {buf : Bytes} {j : Nat}

/-- The buffer with a NUL at the end of each word. -/
def nulAt (ws : List Word) (buf : Bytes) : Bytes := ws.foldl (fun buf w => upd buf w.2 0) buf

lemma nulAt_apply (ws : List Word) (buf : Bytes) :
    nulAt ws buf j = if j ∈ ws.map Prod.snd then 0 else buf j := by
  induction ws generalizing buf with
  | nil => rfl
  | cons w ws ih =>
    change nulAt ws (upd buf w.2 0) j = _
    rw [ih, map_cons]
    by_cases hj : j = w.2
    · rw [hj, upd_same, ite_self, if_pos (mem_cons_self ..)]
    · simp only [upd_ne hj, mem_cons, hj, false_or]

lemma nulterminateLoop_eq (ws : List Word) : ∀ n i buf, ws.length ≤ i + n →
    nulterminateLoop (.of ws) i n buf = nulAt (ws.drop i) buf := by
  intro n
  induction n with
  | zero =>
    intro i buf h
    rw [drop_of_length_le (by omega)]
    rfl
  | succ n ih =>
    intro i buf h
    rw [nulterminateLoop]
    rcases Nat.lt_or_ge i ws.length with hlt | hge
    · have hi : ws[i]? = some ws[i] := getElem?_eq_getElem hlt
      have hargv : (Execcmd.of ws).argv i = some ws[i].1 := congrArg (Option.map Prod.fst) hi
      have heargv : (Execcmd.of ws).eargv i = some ws[i].2 := congrArg (Option.map Prod.snd) hi
      rw [hargv, heargv, drop_eq_getElem_cons hlt]
      exact ih (i + 1) _ (by omega)
    · have hargv : (Execcmd.of ws).argv i = none :=
        congrArg (Option.map Prod.fst) (List.getElem?_eq_none hge)
      rw [hargv, drop_of_length_le hge]
      rfl

/-- Every word gets a NUL, and nothing else does. -/
lemma nulterminate_eq (h : Shows execs cmd t) (buf : Bytes) :
    nulterminate execs cmd buf = nulAt t.words buf := by
  induction h generalizing buf with
  | @exec k ws hk hlen =>
    rw [nulterminate, getD_eq_getElem?_getD, hk, Option.getD_some,
      nulterminateLoop_eq ws MAXARGS 0 buf (by omega)]
    rfl
  | redir _ ih =>
    rw [nulterminate, ih, Tree.words, nulAt, nulAt, foldl_append]
    rfl
  | pipe _ _ ih ih' | list _ _ ih ih' => rw [nulterminate, ih, ih', Tree.words, nulAt, nulAt,
      nulAt, foldl_append]
  | back _ ih => rw [nulterminate, ih, Tree.words]

end Nul

section Recovered

variable {b : List Byte} {s : Nat} {w : Word} {ws : List Word}

/-- A word that `gettoken` scans. It goes as far as it can. -/
structure IsWord (b : List Byte) (w : Word) : Prop where
  scan : scan b w.1 = (.word, w.2)
  stop : w.2 = skip b inWord w.1
  lt : w.1 < b.length

lemma isWord_of_mem (hb : ∀ c ∈ b, c ≠ 0) (hs : s ≤ b.length) (h : Among (tokens b s) w) :
    IsWord b w := by
  induction hn : b.length - s using Nat.strong_induction_on generalizing s with
  | h n ih =>
    rcases tokens_cases hb hs with ⟨hnil, -⟩ | ⟨t, e, htok, hsc⟩
    · rw [Among, hnil] at h
      cases h
    · rw [Among, htok] at h
      have hlt := hsc.lt
      have hle := hsc.le
      rcases mem_cons.mp h with rfl | h
      · obtain ⟨heq, hstop, -⟩ := hsc.word rfl
        obtain ⟨hq, heq⟩ := Token.word.inj heq
        rw [← hq, ← heq] at hsc
        rw [← hq, ← heq] at hstop
        exact ⟨hsc.scan, hstop, by omega⟩
      · have hle' := le_skip b isSpace s
        exact ih (b.length - e) (by omega) hsc.le h rfl

/-- The character at the end of a word belongs to no word. -/
lemma IsWord.not_between {v : Word} (h : IsWord b v) (h' : IsWord b w) {i : Nat} (hq : w.1 ≤ i)
    (hi : i < w.2) :
    i ≠ v.2 := by
  rw [h'.stop] at hi
  obtain ⟨hlt, hin⟩ := skip_between hq hi
  rintro rfl
  have hstop := h.stop
  have hspec := skip_spec (b := b) (f := inWord) (s := v.1) (by rwa [← hstop])
  simp only [← hstop] at hspec
  rw [hspec] at hin
  cases hin

lemma recovered (hb : ∀ c ∈ b, c ≠ 0) (hwords : ∀ w ∈ ws, IsWord b w) (hw : w ∈ ws) :
    Recovered b (nulAt ws fun i => b.getD i 0) w := by
  have h := hwords w hw
  have hle : w.2 ≤ b.length := by
    rw [h.stop]
    exact skip_le h.lt.le
  have hstart : w.1 ≤ w.2 := by
    rw [h.stop]
    exact le_skip ..
  have hlen : ((b.drop w.1).take (w.2 - w.1)).length = w.2 - w.1 := by
    rw [length_take, length_drop]
    omega
  refine ⟨h.scan, fun i hi => ?_, fun c hc => ?_, ?_⟩
  · rw [hlen] at hi
    have hnot : w.1 + i ∉ ws.map Prod.snd := by
      intro hmem
      obtain ⟨v, hv, heq⟩ := mem_map.mp hmem
      exact (hwords v hv).not_between h (Nat.le_add_right ..) (by omega) heq.symm
    rw [getElem?_take_of_lt hi, getElem?_drop, nulAt_apply, if_neg hnot,
      getD_eq_getElem _ _ (by omega), getElem?_eq_getElem (by omega)]
  · exact hb c (mem_of_mem_drop (mem_of_mem_take hc))
  · rw [hlen, Nat.add_sub_cancel' hstart, nulAt_apply, if_pos (mem_map_of_mem hw)]

end Recovered

/-! ### The whole tree -/

section Whole

variable {b : List Byte} {execs : List Execcmd} {cmd : Cmd} {t : Tree} {buf : Bytes} {p : Parse}

/-- The words of the tree are those of the nodes in memory. -/
lemma Shows.argv (h : Shows execs cmd t) {k : Nat} (hk : k ∈ cmd.execs) :
    ∃ ws, execs[k]? = some (.of ws) ∧ ws.length < MAXARGS ∧ ws ⊆ t.words := by
  induction h with
  | exec hget hlen =>
    obtain rfl := mem_singleton.mp hk
    exact ⟨_, hget, hlen, List.Subset.refl _⟩
  | redir _ ih =>
    obtain ⟨ws, hget, hlen, hsub⟩ := ih hk
    exact ⟨ws, hget, hlen, fun w hw => mem_append_left _ (hsub hw)⟩
  | pipe _ _ ih ih' | list _ _ ih ih' =>
    rcases mem_append.mp hk with hk | hk
    · obtain ⟨ws, hget, hlen, hsub⟩ := ih hk
      exact ⟨ws, hget, hlen, fun w hw => mem_append_left _ (hsub hw)⟩
    · obtain ⟨ws, hget, hlen, hsub⟩ := ih' hk
      exact ⟨ws, hget, hlen, fun w hw => mem_append_right _ (hsub hw)⟩
  | back _ ih => exact ih hk

lemma Shows.files (h : Shows execs cmd t) : cmd.files ⊆ t.words := by
  induction h with
  | exec _ _ => exact nil_subset _
  | redir _ ih =>
    exact append_subset.mpr ⟨subset_append_of_subset_left _ ih, subset_append_right ..⟩
  | pipe _ _ ih ih' | list _ _ ih ih' =>
    exact append_subset.mpr ⟨subset_append_of_subset_left _ ih, subset_append_of_subset_right _ ih'⟩
  | back _ ih => exact ih

/-- After `parsecmd`, every argument of every command and every name of a file is a C string with
the characters of its token, and the arguments end with a null pointer. -/
theorem parsecmd_recovered (hb : ∀ c ∈ b, c ≠ 0) (hrun : (parsecmd b).run {} = .ok (cmd, buf) p) :
    (∀ k ∈ cmd.execs, ∃ c, ∃ ws : List Word, p.execs[k]? = some c ∧ ws.length < MAXARGS ∧
      (∀ i, c.argv i = ws[i]?.map Prod.fst) ∧ ∀ w ∈ ws, Recovered b buf w) ∧
      ∀ w ∈ cmd.files, Recovered b buf w := by
  obtain ⟨t, hline, hshows, hbuf⟩ := wp_ok (wp_parsecmd hb) hrun
  have hwords : ∀ w ∈ t.words, IsWord b w := fun w hw => isWord_of_mem hb (Nat.zero_le _)
    (hline.among w hw)
  have hrec : ∀ w ∈ t.words, Recovered b buf w := by
    intro w hw
    rw [show buf = _ from hbuf, nulterminate_eq hshows]
    exact recovered hb hwords hw
  refine ⟨fun k hk => ?_, fun w hw => hrec w (hshows.files hw)⟩
  obtain ⟨ws, hget, hlen, hsub⟩ := hshows.argv hk
  exact ⟨.of ws, ws, hget, hlen, fun i => rfl, fun w hw => hrec w (hsub hw)⟩

/-- The name of the file in `a>b`. -/
theorem parsecmd_recovered_file :
    ∃ cmd buf p, (parsecmd (str "a>b")).run {} = .ok (cmd, buf) p ∧ IsString buf 2 (str "b") := by
  have hb : ∀ c ∈ str "a>b", c ≠ 0 := by decide
  have htok : tokens (str "a>b") 0 = [.word 0 1, .gt, .word 2 3] := by decide +kernel
  have hline : Line (tokens (str "a>b") 0)
      (.redir (.exec [(0, 1)]) (2, 3) (O_WRONLY ||| O_CREATE) 1) := by
    rw [htok]
    exact .last 0 (.last (.simple .nil (.cons (.cons rfl .nil) .nil) (by decide)))
  obtain ⟨⟨cmd, buf⟩, p, hrun, hshows⟩ := wp_total (wp_parsecmd_complete hb hline)
  refine ⟨cmd, buf, p, hrun, ?_⟩
  have hfile : (2, 3) ∈ cmd.files := by
    cases hshows with
    | redir _ => exact mem_append_right _ (mem_cons_self ..)
  exact ((parsecmd_recovered hb hrun).2 (2, 3) hfile).2

end Whole

end Xv6.User.Sh
