import Mathlib.Data.List.TakeWhile
import Xv6.Sh.Basic

/-!
# The grammar of command lines

The tokens of a line and the trees that the grammar derives from them:

* `line ::= pipe '&'* [ ';' line ]`
* `pipe ::= exec [ '|' pipe ]`
* `exec ::= '(' line ')' redir* | redir* ( word redir* )*`, with less than `MAXARGS` words
* `redir ::= ( '<' | '>' | '>>' ) word`
-/

namespace Xv6.Sh

variable {α : Type}

/-! ### Tokens -/

inductive Token (α : Type)
  | word (w : α)
  | less
  | greater
  | append
  | bar
  | amp
  | semi
  | left
  | right
  deriving DecidableEq, Repr

/-- The tokens of a single character that no other token starts with. -/
def symbolOf (c : UInt8) : Option (Token α) :=
  if c = 60 then some .less
  else if c = 124 then some .bar
  else if c = 38 then some .amp
  else if c = 59 then some .semi
  else if c = 40 then some .left
  else if c = 41 then some .right
  else none

/-- The tokens of a line. A word is a maximal run of ordinary characters, and comes with its place.
-/
inductive Lex : Text → List (Token Word) → Prop
  | nil : Lex [] []
  | space {c : UInt8} {s : Text} {ts : List (Token Word)} (hc : c ∈ whitespace) (h : Lex s ts) :
      Lex (c :: s) ts
  | symbol {c : UInt8} {t : Token Word} {s : Text} {ts : List (Token Word)}
      (hc : symbolOf c = some t) (h : Lex s ts) : Lex (c :: s) (t :: ts)
  | append {s : Text} {ts : List (Token Word)} (h : Lex s ts) : Lex (62 :: 62 :: s) (.append :: ts)
  | greater {s : Text} {ts : List (Token Word)} (hs : s.head? ≠ some 62) (h : Lex s ts) :
      Lex (62 :: s) (.greater :: ts)
  | word {c : UInt8} {w s : Text} {ts : List (Token Word)} (hc : ordinary c)
      (hw : ∀ c ∈ w, ordinary c) (hs : ∀ c ∈ s.head?, ¬ordinary c) (h : Lex s ts) :
      Lex (c :: (w ++ s)) (.word ⟨c :: (w ++ s), s⟩ :: ts)

/-- The characters of a word. -/
def Word.text (w : Word) : Text := w.q.take (w.q.length - w.eq.length)

/-! ### Derivations -/

/-- One redirection. -/
inductive Token.Redirects : Token α → α → Redir α → Prop
  | less {w : α} : Redirects .less w ⟨w, O_RDONLY, 0⟩
  | greater {w : α} : Redirects .greater w ⟨w, O_WRONLY ||| O_CREATE ||| O_TRUNC, 1⟩
  | append {w : α} : Redirects .append w ⟨w, O_WRONLY ||| O_CREATE, 1⟩

/-- `redir*` -/
inductive Redirs : List (Token α) → List (Redir α) → Prop
  | nil : Redirs [] []
  | cons {t : Token α} {w : α} {r : Redir α} {ts : List (Token α)} {rs : List (Redir α)}
      (ht : t.Redirects w r) (h : Redirs ts rs) : Redirs (t :: .word w :: ts) (r :: rs)

/-- `( word redir* )*` -/
inductive Args : List (Token α) → List α → List (Redir α) → Prop
  | nil : Args [] [] []
  | cons {w : α} {ts us : List (Token α)} {ws : List α} {rs rs' : List (Redir α)}
      (hr : Redirs ts rs) (h : Args us ws rs') :
      Args (.word w :: (ts ++ us)) (w :: ws) (rs ++ rs')

inductive Nonterminal
  | line
  | pipe
  | exec

/-- A command with `&` behind it `k` times. -/
def backs : ℕ → Cmd α → Cmd α
  | 0, cmd => cmd
  | k + 1, cmd => backs k (.back cmd)

/-- The tokens that a nonterminal derives, with the command they stand for. -/
inductive Derives : Nonterminal → List (Token α) → Cmd α → Prop
  | line {ts : List (Token α)} {cmd : Cmd α} {k : ℕ} (h : Derives .pipe ts cmd) :
      Derives .line (ts ++ List.replicate k .amp) (backs k cmd)
  | list {ts us : List (Token α)} {left right : Cmd α} {k : ℕ} (hl : Derives .pipe ts left)
      (hr : Derives .line us right) :
      Derives .line (ts ++ List.replicate k .amp ++ .semi :: us) (.list (backs k left) right)
  | single {ts : List (Token α)} {cmd : Cmd α} (h : Derives .exec ts cmd) : Derives .pipe ts cmd
  | pipe {ts us : List (Token α)} {left right : Cmd α} (hl : Derives .exec ts left)
      (hr : Derives .pipe us right) : Derives .pipe (ts ++ .bar :: us) (.pipe left right)
  | block {ts us : List (Token α)} {cmd : Cmd α} {rs : List (Redir α)} (h : Derives .line ts cmd)
      (hr : Redirs us rs) : Derives .exec (.left :: (ts ++ .right :: us)) (wrap cmd rs)
  | words {ts us : List (Token α)} {ws : List α} {rs rs' : List (Redir α)} (hr : Redirs ts rs)
      (ha : Args us ws rs') (hlt : ws.length < MAXARGS) :
      Derives .exec (ts ++ us) (wrap (.exec ws) (rs ++ rs'))

/-! ### Words -/

/-- The strings of a command, in the order in which `nulterminate` meets them. -/
def Cmd.words : Cmd α → List α
  | .exec argv => argv
  | .redir cmd r => cmd.words ++ [r.file]
  | .pipe left right => left.words ++ right.words
  | .list left right => left.words ++ right.words
  | .back cmd => cmd.words

variable {w : α} {rs : List (Redir α)} {ts : List (Token α)} {c : UInt8}

@[simp]
lemma mem_words_wrap {cmd : Cmd α} :
    w ∈ (wrap cmd rs).words ↔ w ∈ cmd.words ∨ w ∈ rs.map Redir.file := by
  induction rs generalizing cmd with
  | nil => simp [wrap]
  | cons r rs ih =>
    refine (@ih (.redir cmd r)).trans ?_
    simp [Cmd.words, or_assoc]

@[simp]
lemma words_backs (k : ℕ) (cmd : Cmd α) : (backs k cmd).words = cmd.words := by
  induction k generalizing cmd with
  | zero => rfl
  | succ k ih => exact ih (.back cmd)

lemma Redirs.mem (h : Redirs ts rs) (hw : w ∈ rs.map Redir.file) : .word w ∈ ts := by
  induction h with
  | nil => simp at hw
  | cons ht h ih =>
    rcases List.mem_cons.1 hw with rfl | hw
    · cases ht <;> simp
    · simp [ih hw]

lemma Args.mem {ws : List α} (h : Args ts ws rs) (hw : w ∈ ws ∨ w ∈ rs.map Redir.file) :
    .word w ∈ ts := by
  induction h with
  | nil => simp at hw
  | cons hr h ih =>
    simp only [List.map_append, List.mem_append, List.mem_cons] at hw ⊢
    rcases hw with (rfl | hw) | hw | hw
    · exact .inl rfl
    · exact .inr (.inr (ih (.inl hw)))
    · exact .inr (.inl (hr.mem hw))
    · exact .inr (.inr (ih (.inr hw)))

/-- The strings of a command are words of the line. -/
lemma Derives.mem {nt : Nonterminal} {cmd : Cmd α} (h : Derives nt ts cmd) (hw : w ∈ cmd.words) :
    .word w ∈ ts := by
  induction h with
  | line h ih =>
    rw [words_backs] at hw
    exact List.mem_append_left _ (ih hw)
  | list hl hr ihl ihr =>
    rcases List.mem_append.1 hw with hw | hw
    · rw [words_backs] at hw
      simp [ihl hw]
    · simp [ihr hw]
  | single h ih => exact ih hw
  | pipe hl hr ihl ihr =>
    rcases List.mem_append.1 hw with hw | hw
    · simp [ihl hw]
    · simp [ihr hw]
  | block h hr ih =>
    rcases mem_words_wrap.1 hw with hw | hw
    · simp [ih hw]
    · simp [hr.mem hw]
  | words hr ha hlt =>
    rw [mem_words_wrap, List.map_append, List.mem_append] at hw
    rcases hw with hw | hw | hw
    · exact List.mem_append_right _ (ha.mem (.inl hw))
    · exact List.mem_append_left _ (hr.mem hw)
    · exact List.mem_append_right _ (ha.mem (.inr hw))

/-! ### Reading tokens -/

lemma ordinary_iff : ordinary c ↔ c ∉ whitespace ∧ c ∉ symbols := by
  simp [ordinary]

lemma not_mem_whitespace_of_mem_symbols (hc : c ∈ symbols) : c ∉ whitespace := by
  simp only [symbols, List.mem_cons, List.not_mem_nil, or_false] at hc
  rcases hc with rfl | rfl | rfl | rfl | rfl | rfl | rfl <;> simp [whitespace]

/-- A symbol is `>` or a token of its own. -/
lemma symbolOf_or (hc : c ∈ symbols) : c = 62 ∨ ∃ t : Token α, symbolOf c = some t := by
  simp only [symbols, List.mem_cons, List.not_mem_nil, or_false] at hc
  rcases hc with rfl | rfl | rfl | rfl | rfl | rfl | rfl <;> simp [symbolOf]

lemma symbolOf_eq_some {t : Token α} (h : symbolOf c = some t) :
    c = 60 ∧ t = .less ∨ c = 124 ∧ t = .bar ∨ c = 38 ∧ t = .amp ∨ c = 59 ∧ t = .semi ∨
      c = 40 ∧ t = .left ∨ c = 41 ∧ t = .right := by
  simp only [symbolOf] at h
  split_ifs at h <;> simp_all

lemma mem_symbols_of_symbolOf {t : Token α} (h : symbolOf c = some t) : c ∈ symbols := by
  rcases symbolOf_eq_some h with ⟨rfl, _⟩ | ⟨rfl, _⟩ | ⟨rfl, _⟩ | ⟨rfl, _⟩ | ⟨rfl, _⟩ | ⟨rfl, _⟩ <;>
    decide

/-- Every line has tokens. -/
lemma exists_lex (s : Text) : ∃ ts, Lex s ts := by
  induction hn : s.length using Nat.strongRecOn generalizing s with
  | _ n ih =>
  subst hn
  cases s with
  | nil => exact ⟨[], .nil⟩
  | cons c s =>
    have hs := ih s.length (by simp) s rfl
    by_cases hsp : c ∈ whitespace
    · obtain ⟨ts, h⟩ := hs
      exact ⟨ts, .space hsp h⟩
    by_cases hsy : c ∈ symbols
    · rcases symbolOf_or hsy with rfl | ⟨t, ht⟩
      · by_cases hs62 : s.head? = some 62
        · obtain ⟨s', rfl⟩ : ∃ s', s = 62 :: s' := by
            cases s <;> simp_all
          obtain ⟨ts, h⟩ := ih s'.length (Nat.lt_succ_of_lt (Nat.lt_succ_self _)) s' rfl
          exact ⟨_, .append h⟩
        · obtain ⟨ts, h⟩ := hs
          exact ⟨_, .greater hs62 h⟩
      · obtain ⟨ts, h⟩ := hs
        exact ⟨_, .symbol ht h⟩
    · obtain ⟨ts, h⟩ := ih (s.dropWhile ordinary).length
        (Nat.lt_succ_of_le (List.length_dropWhile_le _ _)) _ rfl
      have hw : Lex (c :: (s.takeWhile ordinary ++ s.dropWhile ordinary)) _ :=
        .word (ordinary_iff.2 ⟨hsp, hsy⟩) (fun c hc => List.mem_takeWhile_imp hc)
          (by
            intro d hd
            have hnot := List.head?_dropWhile_not ordinary s
            rw [Option.mem_def.1 hd] at hnot
            simpa using hnot) h
      rw [List.takeWhile_append_dropWhile] at hw
      exact ⟨_, hw⟩

end Xv6.Sh
