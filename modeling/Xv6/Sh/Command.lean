import Xv6.Sh.Parser

/-!
# Parsing a whole line

`nulterminate` writes zeros behind words only, where no ordinary character stands. The strings of a
command are then the words of the line, and `parsecmd` accepts what the grammar derives.
-/

namespace Xv6.Sh

open Core Coroutine

/-! ### The strings of a command -/

/-- A word is a maximal run of ordinary characters at some place of the line. -/
structure Word.Within (line : Text) (w : Word) (before text : Text) : Prop where
  line_eq : line = before ++ (text ++ w.eq)
  q_eq : w.q = text ++ w.eq
  ordinary : ∀ c ∈ text, ordinary c
  ends : ∀ c ∈ w.eq.head?, ¬Sh.ordinary c

lemma Word.Within.append {line before text : Text} {w : Word} (h : w.Within line before text)
    (front : Text) : w.Within (front ++ line) (front ++ before) text where
  line_eq := by rw [h.line_eq, List.append_assoc]
  q_eq := h.q_eq
  ordinary := h.ordinary
  ends := h.ends

lemma Word.Within.text_eq {line before text : Text} {w : Word} (h : w.Within line before text) :
    w.text = text := by
  simp [Word.text, h.q_eq]

variable {ts : List (Token Word)}

lemma Lex.exists_within {s : Text} {w : Word} (h : Lex s ts) (hw : .word w ∈ ts) :
    ∃ before, w.Within s before w.text := by
  induction h with
  | nil => simp at hw
  | @space c s ts hc h ih =>
    obtain ⟨before, hb⟩ := ih hw
    exact ⟨_, hb.append [c]⟩
  | @symbol c t s ts hc h ih =>
    rcases List.mem_cons.1 hw with rfl | hw
    · exact absurd rfl ((code_symbolOf hc).2.2.1 w)
    · obtain ⟨before, hb⟩ := ih hw
      exact ⟨_, hb.append [c]⟩
  | append h ih =>
    obtain ⟨before, hb⟩ := ih (by simpa using hw)
    exact ⟨_, hb.append [62, 62]⟩
  | greater hs h ih =>
    obtain ⟨before, hb⟩ := ih (by simpa using hw)
    exact ⟨_, hb.append [62]⟩
  | @word c x s ts hc hx hs h ih =>
    rcases List.mem_cons.1 hw with heq | hw
    · cases heq
      have hb : Word.Within (c :: (x ++ s)) ⟨c :: (x ++ s), s⟩ [] (c :: x) :=
        ⟨rfl, rfl, by simpa [hc] using hx, hs⟩
      exact ⟨[], by rwa [hb.text_eq]⟩
    · obtain ⟨before, hb⟩ := ih hw
      exact ⟨_, hb.append (c :: x)⟩

/-- The ordinary characters of the line stand in `buf` as well. -/
def Kept (s buf : Text) : Prop := ∀ (i : ℕ) (c : UInt8), s[i]? = some c → ordinary c →
  buf[i]? = some c

/-- A string of the line ends in `buf` where the word ends. -/
def Ended (n : ℕ) (buf : Text) (w : Word) : Prop := ∀ c ∈ buf[n - w.eq.length]?, c = 0

variable {line buf before text : Text} {w : Word}

lemma Word.Within.sub_eq (h : w.Within line before text) :
    line.length - w.eq.length = before.length + text.length ∧
      line.length - w.q.length = before.length := by
  rw [h.line_eq, h.q_eq]
  simp only [List.length_append]
  omega

lemma Kept.terminate (h : Kept line buf) (hw : w.Within line before text) :
    Kept line (terminate line.length buf w) := by
  intro i c hi hc
  rw [Sh.terminate, List.getElem?_set_ne, h i c hi hc]
  rintro rfl
  -- the zero would stand at an ordinary character
  rw [hw.sub_eq.1, hw.line_eq, ← List.append_assoc, ← List.length_append,
    List.getElem?_append_right le_rfl, Nat.sub_self, ← List.head?_eq_getElem?] at hi
  exact hw.ends c hi hc

lemma ended_terminate (n : ℕ) (buf : Text) (w : Word) : Ended n (terminate n buf w) w := by
  intro c hc
  rw [terminate, List.getElem?_set_self'] at hc
  simp at hc
  grind

lemma Ended.terminate {n : ℕ} (h : Ended n buf w) (w' : Word) :
    Ended n (terminate n buf w') w := by
  intro c hc
  by_cases heq : n - w'.eq.length = n - w.eq.length
  · have := ended_terminate n buf w'
    rw [Ended, heq] at this
    exact this c hc
  · rw [Sh.terminate, List.getElem?_set_ne heq] at hc
    exact h c hc

lemma nulterminate_eq (n : ℕ) (cmd : Cmd Word) (buf : Text) :
    nulterminate n cmd buf = cmd.words.foldl (terminate n) buf := by
  induction cmd generalizing buf with
  | exec argv => rfl
  | redir cmd r ih => simp [nulterminate, Cmd.words, ih]
  | pipe left right ihl ihr => simp [nulterminate, Cmd.words, ihl, ihr]
  | list left right ihl ihr => simp [nulterminate, Cmd.words, ihl, ihr]
  | back cmd ih => exact ih buf

lemma kept_and_ended (ws : List Word) (h : Kept line buf)
    (hws : ∀ w ∈ ws, ∃ before, w.Within line before w.text) :
    Kept line (ws.foldl (terminate line.length) buf) ∧
      ∀ w, w ∈ ws ∨ Ended line.length buf w →
        Ended line.length (ws.foldl (terminate line.length) buf) w := by
  induction ws generalizing buf with
  | nil => exact ⟨h, fun w hw => hw.resolve_left (by simp)⟩
  | cons w ws ih =>
    obtain ⟨before, hw⟩ := hws w List.mem_cons_self
    obtain ⟨hkept, hended⟩ := ih (h.terminate hw) fun w' hw' => hws w' (List.mem_cons_of_mem _ hw')
    refine ⟨hkept, fun w' hw' => hended w' ?_⟩
    rcases hw' with hw' | hw'
    · rcases List.mem_cons.1 hw' with rfl | hw'
      · exact .inr (ended_terminate _ _ _)
      · exact .inl hw'
    · exact .inr (hw'.terminate w)

lemma string_eq (hkept : Kept line buf) (hended : Ended line.length buf w)
    (hw : w.Within line before text) (hline : 0 ∉ line) : string line.length buf w = text := by
  rw [Ended, hw.sub_eq.1] at hended
  rw [string, hw.sub_eq.2]
  have htext : (buf.drop before.length).take text.length = text := by
    apply List.ext_getElem?
    intro i
    by_cases hi : i < text.length
    · rw [List.getElem?_take_of_lt hi, List.getElem?_drop, List.getElem?_eq_getElem hi]
      apply hkept _ _ _ (hw.ordinary _ (List.getElem_mem hi))
      rw [hw.line_eq, List.getElem?_append_right (by omega), Nat.add_sub_cancel_left,
        List.getElem?_append_left hi, List.getElem?_eq_getElem hi]
    · rw [List.getElem?_eq_none (by simp; omega), List.getElem?_eq_none (by omega)]
  rw [← List.take_append_drop text.length (buf.drop before.length), htext, List.drop_drop,
    List.takeWhile_append_of_pos]
  · -- behind the word the buffer ends, or there is a zero
    cases hrest : buf.drop (before.length + text.length) with
    | nil => simp
    | cons c rest =>
      rw [List.takeWhile_cons_of_neg, List.append_nil]
      have : c ∈ buf[before.length + text.length]? := by
        rw [← Nat.add_zero (_ + _), ← List.getElem?_drop, hrest]
        rfl
      simp [hended c this]
  · intro c hc
    have hmem : c ∈ line := by
      rw [hw.line_eq]
      simp [hc]
    simpa using ne_of_mem_of_not_mem hmem hline

/-- After words of the line have been terminated in some order, each of them is a string. -/
lemma string_foldl {ws : List Word} (hws : ∀ w ∈ ws, ∃ before, w.Within line before w.text)
    (hline : 0 ∉ line) (hw : w ∈ ws) :
    string line.length (ws.foldl (terminate line.length) line) w = w.text := by
  obtain ⟨hkept, hended⟩ := kept_and_ended ws (fun i c hi _ => hi) hws
  obtain ⟨before, hb⟩ := hws w hw
  exact string_eq hkept (hended w (.inl hw)) hb hline

/-! ### The command of a line -/

lemma Lex.length_le {s : Text} (h : Lex s ts) : ts.length ≤ s.length := by
  induction h <;> simp <;> omega

lemma Lex.skip_eq_nil {s : Text} (h : Lex s []) : Sh.skip s = [] := by
  generalize hts : ([] : List (Token Word)) = ts at h
  induction h with
  | nil => rfl
  | space hc h ih =>
    rw [skip_of_mem hc]
    exact ih hts
  | _ => cases hts

/-- What is returned is derived from the tokens of the line. -/
lemma wp_parsecmd (h : Lex line ts) :
    wp Rejects (parsecmd line) (fun r _ => Derives .line ts r.1 ∧
      r.2 = nulterminate line.length r.1 line) line := by
  have hlen := h.length_le
  rw [parsecmd, wp_bind]
  apply sound .line (4 * line.length + 4) h (by simp only [depth]; omega)
  rintro us vs cmd s₁ rfl hcmd h₁
  rw [wp_bind]
  apply wp_peek h₁ (by simp)
  intro s₂ h₂
  rw [wp_bind, wp_get]
  apply wp_ite
  · intro _
    exact ⟨Panic.noConfusion, Panic.noConfusion⟩
  · intro hend
    obtain rfl := not_not.1 hend
    cases h₂
    rw [List.append_nil]
    exact ⟨hcmd, rfl⟩

/-- A derivation for the tokens of the line is returned. -/
lemma Derives.wp_parsecmd {F : Panic → Prop} {cmd : Cmd Word} (hcmd : Derives .line ts cmd)
    (h : Lex line ts) :
    wp F (parsecmd line) (fun r _ => r = (cmd, nulterminate line.length cmd line)) line := by
  have hlen := h.length_le
  rw [← ts.append_nil] at h
  rw [parsecmd, wp_bind]
  show wp F (parse .line (4 * line.length + 4)) _ line
  apply hcmd.wp_parse h (by simp only [depth, List.append_nil]; omega)
    (show 0 ∈ follow .line by decide)
  intro s₁ h₁
  simp only [peek, wp_bind, wp_modify, wp_get, h₁.skip_eq_nil]
  exact rfl

/-- The parser accepts exactly its grammar: a line has one list of tokens; what is derived from them
is what `parsecmd` returns, and its strings are the words of the line; and where `parsecmd` does not
return, it rejects the line, neither running on for ever nor writing behind an array `argv`. -/
theorem parsecmd_accepts_grammar (line : Text) (hline : 0 ∉ line) :
    ∃ ts, (∀ us, Lex line us ↔ us = ts) ∧
      (∀ cmd, Derives .line ts cmd ↔
        ∃ buf s', (parsecmd line).run line = .ok ((cmd, buf), s')) ∧
      (∀ cmd buf s', (parsecmd line).run line = .ok ((cmd, buf), s') →
        ∀ w ∈ cmd.words, string line.length buf w = w.text) ∧
      ∀ e, (parsecmd line).run line = .error e → e ≠ .argvIndex ∧ e ≠ .endless := by
  obtain ⟨ts, hts⟩ := exists_lex line
  refine ⟨ts, fun us => ⟨fun hus => hus.unique hts, fun hus => hus ▸ hts⟩, fun cmd => ⟨?_, ?_⟩,
    ?_, fun e he => (wp_parsecmd hts).fails he⟩
  · intro hcmd
    obtain ⟨r, s', hrun, rfl⟩ := (hcmd.wp_parsecmd hts).exists_run
    exact ⟨_, s', hrun⟩
  · rintro ⟨buf, s', hrun⟩
    exact ((wp_parsecmd hts).returns hrun).1
  · intro cmd buf s' hrun w hw
    obtain ⟨hcmd, hbuf⟩ := (wp_parsecmd hts).returns hrun
    obtain rfl : buf = cmd.words.foldl (terminate line.length) line :=
      hbuf.trans (nulterminate_eq _ cmd line)
    exact string_foldl (fun w hw => hts.exists_within (hcmd.mem hw)) hline hw

/-- The line `a>b|c`. -/
theorem parsecmd_accepts_grammar_pipe :
    ∃ ts, (∀ us, Lex [97, 62, 98, 124, 99] us ↔ us = ts) ∧
      Derives .line ts (.pipe
        (.redir (.exec [⟨[97, 62, 98, 124, 99], [62, 98, 124, 99]⟩])
          ⟨⟨[98, 124, 99], [124, 99]⟩, O_WRONLY ||| O_CREATE ||| O_TRUNC, 1⟩)
        (.exec [⟨[99], []⟩])) := by
  obtain ⟨ts, hts, hiff, -, -⟩ := parsecmd_accepts_grammar [97, 62, 98, 124, 99] (by decide)
  exact ⟨ts, hts, (hiff _).2 ⟨[97, 0, 98, 0, 99], [], by decide +kernel⟩⟩

/-- For every line that `parsecmd` accepts: the arguments and the files of the command are words of
the line, that is, the longest runs of ordinary characters from where they begin. After
`nulterminate` each of them can be read as a string, and so it could if the zeros were written in
any other order. -/
theorem nulterminate_keeps_words (line : Text) (hline : 0 ∉ line) {cmd : Cmd Word} {buf s' : Text}
    (hrun : (parsecmd line).run line = .ok ((cmd, buf), s')) :
    ∀ w ∈ cmd.words, (∃ before, w.Within line before w.text) ∧
      string line.length buf w = w.text ∧
      ∀ ws : List Word, ws.Perm cmd.words →
        string line.length (ws.foldl (terminate line.length) line) w = w.text := by
  intro w hw
  obtain ⟨ts, hts⟩ := exists_lex line
  obtain ⟨hcmd, hbuf⟩ := (wp_parsecmd hts).returns hrun
  obtain rfl : buf = cmd.words.foldl (terminate line.length) line :=
    hbuf.trans (nulterminate_eq _ cmd line)
  have hwithin : ∀ w ∈ cmd.words, ∃ before, w.Within line before w.text :=
    fun w hw => hts.exists_within (hcmd.mem hw)
  refine ⟨hwithin w hw, string_foldl hwithin hline hw, fun ws hperm => ?_⟩
  exact string_foldl (fun w hw => hwithin w (hperm.mem_iff.mp hw)) hline (hperm.mem_iff.mpr hw)

/-- In the line `a>b|c`, the zeros are written where the operators were. -/
theorem nulterminate_keeps_words_pipe : ∃ cmd s',
    (parsecmd [97, 62, 98, 124, 99]).run [97, 62, 98, 124, 99]
      = .ok ((cmd, [97, 0, 98, 0, 99]), s') ∧
    cmd.words.map (string 5 [97, 0, 98, 0, 99]) = cmd.words.map Word.text := by
  have hrun : (parsecmd [97, 62, 98, 124, 99]).run [97, 62, 98, 124, 99]
      = .ok ((.pipe (.redir (.exec [⟨[97, 62, 98, 124, 99], [62, 98, 124, 99]⟩])
          ⟨⟨[98, 124, 99], [124, 99]⟩, O_WRONLY ||| O_CREATE ||| O_TRUNC, 1⟩)
        (.exec [⟨[99], []⟩]), [97, 0, 98, 0, 99]), []) := by
    decide +kernel
  refine ⟨_, [], hrun, List.map_congr_left fun w hw => ?_⟩
  exact (nulterminate_keeps_words _ (by decide) hrun w hw).2.1

end Xv6.Sh
