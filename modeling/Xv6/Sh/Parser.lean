import Xv6.Sh.Grammar

/-!
# The parser and the grammar

What `peek` and `gettoken` do is said in terms of the tokens that are left of the line. The loops
and the recursive functions are then followed twice: along the run, which gives a derivation for the
tokens that were read, and along a derivation, which the run has to follow.
-/

namespace Xv6.Sh

open Core Coroutine

variable {F : Panic → Prop} {s : Text} {ts us : List (Token Word)}

/-! ### The scanner -/

/-- What `gettoken` returns for a token. -/
def Token.code {α : Type} : Token α → UInt8
  | .word _ => 97
  | .less => 60
  | .greater => 62
  | .append => 43
  | .bar => 124
  | .amp => 38
  | .semi => 59
  | .left => 40
  | .right => 41

/-- What `gettoken` returns at the first of some tokens. -/
def code {α : Type} : List (Token α) → UInt8
  | [] => 0
  | t :: _ => t.code

/-- The symbol that the first of some tokens starts with. -/
def first {α : Type} : List (Token α) → UInt8
  | .append :: _ => 62
  | ts => code ts

lemma skip_of_mem {c : UInt8} (hc : c ∈ whitespace) : skip (c :: s) = skip s := by
  simp [skip, hc]

lemma skip_of_notMem {c : UInt8} (hc : c ∉ whitespace) : skip (c :: s) = c :: s := by
  simp [skip, hc]

lemma Lex.skip (h : Lex s ts) : Lex (skip s) ts := by
  induction h with
  | nil => exact .nil
  | space hc h ih =>
    rw [skip_of_mem hc]
    exact ih
  | symbol hc h ih =>
    rw [skip_of_notMem (not_mem_whitespace_of_mem_symbols (mem_symbols_of_symbolOf hc))]
    exact .symbol hc h
  | append h ih => exact .append h
  | greater hs h ih => exact .greater hs h
  | word hc hw hs h ih =>
    rw [skip_of_notMem (ordinary_iff.1 hc).1]
    exact .word hc hw hs h

variable {α : Type} {toks : List UInt8} {c c' : ParseM α} {Q : Cmd Word → Text → Prop}
  {t : Token Word} {rs : List (Redir Word)} {cmd : Cmd Word}

lemma code_symbolOf {c : UInt8} {t : Token α} (h : symbolOf c = some t) :
    t.code = c ∧ (c = 124 ∨ c = 40 ∨ c = 41 ∨ c = 59 ∨ c = 38 ∨ c = 60) ∧
      (∀ w, t ≠ .word w) ∧ ∀ ts, first (t :: ts) = c := by
  rcases symbolOf_eq_some h with
    ⟨rfl, rfl⟩ | ⟨rfl, rfl⟩ | ⟨rfl, rfl⟩ | ⟨rfl, rfl⟩ | ⟨rfl, rfl⟩ | ⟨rfl, rfl⟩ <;>
    exact ⟨rfl, by decide, nofun, fun _ => rfl⟩

lemma wp_peek {Q : Bool → Text → Prop} (h : Lex s ts) (htoks : toks ⊆ symbols)
    (hQ : ∀ s', Lex s' ts → Q (toks.contains (first ts)) s') : wp F (peek toks) Q s := by
  -- neither the end of the line nor a word starts with a symbol
  have hnot : ∀ c, c ∉ symbols → toks.contains c = false := fun c hc => by
    simpa using fun hmem => hc (htoks hmem)
  simp only [peek, wp_bind, wp_modify, wp_get]
  have hskip := h.skip
  induction h with
  | nil =>
    have := hQ _ hskip
    rwa [show first [] = 0 from rfl, hnot 0 (by decide)] at this
  | space hc h ih =>
    rw [skip_of_mem hc] at hskip ⊢
    exact ih hQ hskip
  | symbol hc h ih =>
    rw [skip_of_notMem (not_mem_whitespace_of_mem_symbols (mem_symbols_of_symbolOf hc))] at hskip ⊢
    have := hQ _ hskip
    rwa [(code_symbolOf hc).2.2.2] at this
  | append h ih => exact hQ _ hskip
  | greater hs h ih => exact hQ _ hskip
  | @word c w s ts hc hw hs h ih =>
    rw [ordinary_iff] at hc
    rw [skip_of_notMem hc.1] at hskip ⊢
    have := hQ _ hskip
    rwa [show first (.word _ :: ts) = 97 from rfl, hnot 97 (by decide), ← hnot c hc.2] at this

lemma wp_gettoken {Q : UInt8 × Word → Text → Prop} (h : Lex s ts)
    (hQ : ∀ w s', (∀ x, ts.head? = some (.word x) → w = x) → Lex s' ts.tail → Q (code ts, w) s') :
    wp F gettoken Q s := by
  simp only [gettoken, wp_bind, wp_modify, wp_get]
  induction h with
  | nil => exact hQ _ _ (by simp) .nil
  | space hc h ih =>
    rw [skip_of_mem hc]
    exact ih hQ
  | symbol hc h ih =>
    rw [skip_of_notMem (not_mem_whitespace_of_mem_symbols (mem_symbols_of_symbolOf hc))]
    obtain ⟨hcode, hsym, hword, -⟩ := code_symbolOf hc
    simp only [hsym, if_true]
    rw [← hcode]
    exact hQ _ _ (fun x hx => absurd (Option.some.inj hx) (hword x)) h.skip
  | append h ih => exact hQ _ _ (by simp) h.skip
  | @greater s ts hs h ih =>
    have hne : (s.head? = some 62) = False := eq_false hs
    have := hQ ⟨62 :: s, s⟩ _ (by simp) h.skip
    rw [skip_of_notMem (by decide)]
    simp only [hne, if_false]
    exact this
  | @word c w s ts hc hw hs h ih =>
    have heq : (c :: (w ++ s)).dropWhile ordinary = s := by
      rw [← List.cons_append, List.dropWhile_append_of_pos (by simpa [hc] using hw)]
      cases s with
      | nil => rfl
      | cons d s => simp [hs d rfl]
    have := hQ ⟨c :: (w ++ s), s⟩ _ (by simp) h.skip
    obtain ⟨hsp, hsy⟩ := ordinary_iff.1 hc
    simp only [symbols, List.mem_cons, List.not_mem_nil, or_false, not_or] at hsy
    rw [skip_of_notMem hsp]
    simp only [heq]
    rw [if_neg (by tauto), if_neg hsy.2.2.1]
    exact this

lemma Lex.gettoken (h : Lex s ts) : ∃ w s', gettoken.run s = .ok ((code ts, w), s') ∧
    (∀ x, ts.head? = some (.word x) → w = x) ∧ Lex s' ts.tail := by
  have hwp : wp (fun _ => False) Sh.gettoken (fun r s' => r.1 = code ts ∧
      (∀ x, ts.head? = some (.word x) → r.2 = x) ∧ Lex s' ts.tail) s :=
    wp_gettoken h fun w s' hw hs' => ⟨rfl, hw, hs'⟩
  obtain ⟨⟨_, w⟩, s', hrun, rfl, hw, hs'⟩ := hwp.exists_run
  exact ⟨w, s', hrun, hw, hs'⟩

lemma code_inj {w : Word} (h : code ts = code us) (ht : ∀ x, ts.head? = some (.word x) → w = x)
    (hu : ∀ x, us.head? = some (.word x) → w = x) : ts.head? = us.head? := by
  rcases ts with _ | ⟨_ | _, ts⟩ <;> rcases us with _ | ⟨_ | _, us⟩ <;>
    simp_all [code, Token.code]

lemma Lex.step (h : Lex s ts) (h' : Lex s us) :
    ts.head? = us.head? ∧ ∃ s', Lex s' ts.tail ∧ Lex s' us.tail := by
  obtain ⟨w, s', hrun, hw, hs⟩ := h.gettoken
  obtain ⟨w', s'', hrun', hw', hs'⟩ := h'.gettoken
  simp only [hrun, Except.ok.injEq, Prod.mk.injEq] at hrun'
  obtain ⟨⟨hcode, rfl⟩, rfl⟩ := hrun'
  exact ⟨code_inj hcode hw hw', s', hs, hs'⟩

/-- A line has only one list of tokens. -/
lemma Lex.unique (h : Lex s ts) (h' : Lex s us) : ts = us := by
  induction ts generalizing s us with
  | nil =>
    cases us with
    | nil => rfl
    | cons u us => cases (h.step h').1
  | cons t ts ih =>
    obtain ⟨hhead, s', hs, hs'⟩ := h.step h'
    cases us with
    | nil => cases hhead
    | cons u us =>
      cases hhead
      rw [ih hs hs', List.tail_cons]

/-- The rule for a branch on the next token. -/
lemma wp_peek_ite {Q : α → Text → Prop} (h : Lex s ts) (htoks : toks ⊆ symbols)
    (hc : first ts ∈ toks → ∀ s', Lex s' ts → wp F c Q s')
    (hc' : first ts ∉ toks → ∀ s', Lex s' ts → wp F c' Q s') :
    wp F (peek toks >>= fun b => if b then c else c') Q s := by
  rw [wp_bind]
  apply wp_peek h htoks
  intro s' hs'
  apply wp_ite
  · intro hmem
    exact hc (by simpa using hmem) s' hs'
  · intro hmem
    exact hc' (by simpa using hmem) s' hs'

lemma wp_peek_pos {Q : α → Text → Prop} (h : Lex s ts) (htoks : toks ⊆ symbols)
    (hmem : first ts ∈ toks) (hc : ∀ s', Lex s' ts → wp F c Q s') :
    wp F (peek toks >>= fun b => if b then c else c') Q s :=
  wp_peek_ite h htoks (fun _ => hc) fun hnot => absurd hmem hnot

lemma wp_peek_neg {Q : α → Text → Prop} (h : Lex s ts) (htoks : toks ⊆ symbols)
    (hmem : first ts ∉ toks) (hc : ∀ s', Lex s' ts → wp F c' Q s') :
    wp F (peek toks >>= fun b => if b then c else c') Q s :=
  wp_peek_ite h htoks (fun hin => absurd hin hmem) fun _ => hc

/-- The rule for reading a token that is not looked at. -/
lemma wp_gettoken_cons {Q : α → Text → Prop} (h : Lex s (t :: ts))
    (hc : ∀ s', Lex s' ts → wp F c Q s') : wp F (gettoken >>= fun _ => c) Q s := by
  rw [wp_bind]
  apply wp_gettoken h
  intro w s' _ hs'
  exact hc s' hs'

/-! ### Following a run -/

/-- The failures by which the parser rejects a line. -/
def Rejects (e : Panic) : Prop := e ≠ .argvIndex ∧ e ≠ .endless

lemma exists_eq_cons_of_code (h : code ts = 97) : ∃ w us, ts = .word w :: us := by
  rcases ts with _ | ⟨_ | _, us⟩ <;> simp_all [code, Token.code]

lemma eq_nil_of_code (h : code ts = 0) : ts = [] := by
  rcases ts with _ | ⟨_ | _, us⟩ <;> simp_all [code, Token.code]

/-- A token that starts with its own symbol is recognised by it. -/
lemma exists_eq_cons_of_first (h : first ts ∈ [t.code])
    (ht : t ∈ [.bar, .amp, .semi, .left, .right]) : ∃ us, ts = t :: us := by
  simp only [List.mem_cons, List.not_mem_nil, or_false] at ht h
  rcases ts with _ | ⟨_ | _, us⟩ <;> rcases ht with rfl | rfl | rfl | rfl | rfl <;>
    simp_all [first, code, Token.code]

lemma redirects_of_first (w : Word) (h : first (t :: ts) ∈ ([60, 62] : List UInt8)) :
    t.Redirects w (redirOf t.code w) := by
  cases t with
  | less => exact .less
  | greater => exact .greater
  | append => exact .append
  | _ => simp [first, code, Token.code] at h

lemma wp_parseredirs {fuel : ℕ} {Q : List (Redir Word) → Text → Prop} (h : Lex s ts)
    (hlt : ts.length < fuel)
    (hQ : ∀ us vs rs s', ts = us ++ vs → Redirs us rs → Lex s' vs → Q rs s') :
    wp Rejects (parseredirs fuel) Q s := by
  induction fuel generalizing s ts Q with
  | zero => cases hlt
  | succ fuel ih =>
    apply wp_peek_ite h (by decide)
    · intro hfirst s₁ h₁
      rw [wp_bind]
      apply wp_gettoken h₁
      intro w₁ s₂ _ h₂
      rw [wp_bind]
      apply wp_gettoken h₂
      intro w s₃ hw h₃
      apply wp_ite
      · intro _
        exact ⟨nofun, nofun⟩
      · intro hcode
        rcases ts with _ | ⟨t, ts⟩
        · exact absurd hfirst (by decide)
        obtain ⟨x, us, rfl⟩ := exists_eq_cons_of_code (not_not.1 hcode)
        obtain rfl := hw x rfl
        rw [wp_bind]
        apply ih h₃ (by simp at hlt ⊢; omega)
        rintro us vs rs s' rfl hrs hs'
        exact hQ _ vs _ s' rfl (.cons (redirects_of_first w hfirst) hrs) hs'
    · intro _ s₁ h₁
      exact hQ [] ts [] s₁ rfl .nil h₁

lemma wp_parseargs {fuel : ℕ} {argv : List Word}
    {Q : List Word × List (Redir Word) → Text → Prop} (h : Lex s ts) (hlt : ts.length < fuel)
    (hargv : argv.length < MAXARGS)
    (hQ : ∀ us vs ws rs' s', ts = us ++ vs → Args us ws rs' → argv.length + ws.length < MAXARGS →
      Lex s' vs → Q (argv ++ ws, rs ++ rs') s') :
    wp Rejects (parseargs fuel argv rs) Q s := by
  induction fuel generalizing s ts argv rs Q with
  | zero => cases hlt
  | succ fuel ih =>
    have hdone : ∀ s', Lex s' ts → Q (argv, rs) s' := by
      intro s' hs'
      simpa using hQ [] ts [] [] s' rfl .nil hargv hs'
    apply wp_peek_ite h (by decide)
    · intro _
      exact hdone
    · intro _ s₁ h₁
      rw [wp_bind]
      apply wp_gettoken h₁
      intro w s₂ hw h₂
      apply wp_ite
      · intro hcode
        obtain rfl := eq_nil_of_code hcode
        exact hdone s₂ h₂
      intro _
      apply wp_ite
      · intro _
        exact ⟨nofun, nofun⟩
      intro hcode
      obtain ⟨x, us, rfl⟩ := exists_eq_cons_of_code (not_not.1 hcode)
      obtain rfl := hw x rfl
      apply wp_ite
      · intro hge
        omega
      intro _
      apply wp_ite
      · intro _
        exact ⟨nofun, nofun⟩
      intro hargv'
      rw [wp_bind]
      apply wp_parseredirs h₂ (by simpa using hlt)
      rintro us vs rs₁ s₃ rfl hrs₁ h₃
      apply ih h₃ (by simp at hlt; omega) (by simpa using hargv')
      rintro us₂ vs ws rs₂ s' rfl hargs hlen hs'
      have := hQ (.word w :: (us ++ us₂)) vs (w :: ws) (rs₁ ++ rs₂) s' (by simp)
        (.cons hrs₁ hargs) (by simp at hlen ⊢; omega) hs'
      simpa using this

lemma wp_parsebacks {fuel : ℕ} (h : Lex s ts) (hlt : ts.length < fuel)
    (hQ : ∀ k vs s', ts = List.replicate k .amp ++ vs → Lex s' vs → Q (backs k cmd) s') :
    wp Rejects (parsebacks fuel cmd) Q s := by
  induction fuel generalizing s ts cmd Q with
  | zero => cases hlt
  | succ fuel ih =>
    apply wp_peek_ite h (by decide)
    · intro hfirst s₁ h₁
      obtain ⟨us, rfl⟩ := exists_eq_cons_of_first (t := .amp) hfirst (by simp)
      apply wp_gettoken_cons h₁
      intro s₂ h₂
      apply ih h₂ (by simpa using hlt)
      rintro k vs s' rfl hs'
      exact hQ (k + 1) vs s' rfl hs'
    · intro _ s₁ h₁
      exact hQ 0 ts s₁ rfl h₁

/-- The function for a nonterminal. -/
def parse : Nonterminal → ℕ → ParseM (Cmd Word)
  | .line => parseline
  | .pipe => parsepipe
  | .exec => parseexec

/-- The calls that a nonterminal takes before a token is read. -/
def depth : Nonterminal → ℕ
  | .line => 4
  | .pipe => 3
  | .exec => 2

/-- What is returned is derived from the tokens that were read. -/
def Sound (nt : Nonterminal) (fuel : ℕ) : Prop :=
  ∀ {s : Text} {ts : List (Token Word)} {Q : Cmd Word → Text → Prop}, Lex s ts →
    4 * ts.length + depth nt ≤ fuel →
    (∀ us vs cmd s', ts = us ++ vs → Derives nt us cmd → Lex s' vs → Q cmd s') →
    wp Rejects (parse nt fuel) Q s

variable {fuel : ℕ}

lemma Sound.line (hpipe : Sound .pipe fuel) (hline : Sound .line fuel) :
    Sound .line (fuel + 1) := by
  intro s ts Q h hle hQ
  simp only [depth] at hle
  show wp Rejects (parseline (fuel + 1)) Q s
  rw [parseline, wp_bind]
  apply hpipe h (by simp only [depth]; omega)
  rintro us ts₁ cmd s₁ rfl hcmd h₁
  rw [List.length_append] at hle
  rw [wp_bind]
  apply wp_parsebacks h₁ (by omega)
  rintro k ts₂ s₂ rfl h₂
  rw [List.length_append] at hle
  apply wp_peek_ite h₂ (by decide)
  · intro hfirst s₃ h₃
    obtain ⟨ts₃, rfl⟩ := exists_eq_cons_of_first (t := .semi) hfirst (by simp)
    rw [List.length_cons] at hle
    apply wp_gettoken_cons h₃
    intro s₄ h₄
    rw [wp_bind]
    apply hline h₄ (by simp only [depth]; omega)
    rintro us₂ vs right s₅ rfl hright h₅
    exact hQ _ vs _ s₅ (by simp) (.list hcmd hright) h₅
  · intro _ s₃ h₃
    exact hQ _ ts₂ _ s₃ (by simp) (.line hcmd) h₃

lemma Sound.pipe (hexec : Sound .exec fuel) (hpipe : Sound .pipe fuel) :
    Sound .pipe (fuel + 1) := by
  intro s ts Q h hle hQ
  simp only [depth] at hle
  show wp Rejects (parsepipe (fuel + 1)) Q s
  rw [parsepipe, wp_bind]
  apply hexec h (by simp only [depth]; omega)
  rintro us ts₁ cmd s₁ rfl hcmd h₁
  rw [List.length_append] at hle
  apply wp_peek_ite h₁ (by decide)
  · intro hfirst s₂ h₂
    obtain ⟨ts₂, rfl⟩ := exists_eq_cons_of_first (t := .bar) hfirst (by simp)
    rw [List.length_cons] at hle
    apply wp_gettoken_cons h₂
    intro s₃ h₃
    rw [wp_bind]
    apply hpipe h₃ (by simp only [depth]; omega)
    rintro us₂ vs right s₄ rfl hright h₄
    exact hQ _ vs _ s₄ (by simp) (.pipe hcmd hright) h₄
  · intro _ s₂ h₂
    exact hQ _ ts₁ _ s₂ rfl (.single hcmd) h₂

lemma wp_parseblock (hline : Sound .line fuel) (h : Lex s (.left :: ts))
    (hle : 4 * ts.length + 4 ≤ fuel)
    (hQ : ∀ us vs cmd s', .left :: ts = us ++ vs → Derives .exec us cmd → Lex s' vs → Q cmd s') :
    wp Rejects (parseblock (fuel + 1)) Q s := by
  rw [parseblock]
  apply wp_peek_pos h (by decide) (show (40 : UInt8) ∈ [40] by simp)
  intro s₁ h₁
  apply wp_gettoken_cons h₁
  intro s₂ h₂
  rw [wp_bind]
  apply hline h₂ hle
  rintro us ts₁ cmd s₃ rfl hcmd h₃
  rw [List.length_append] at hle
  apply wp_peek_ite h₃ (by decide)
  · intro hfirst s₄ h₄
    obtain ⟨ts₂, rfl⟩ := exists_eq_cons_of_first (t := .right) hfirst (by simp)
    rw [List.length_cons] at hle
    apply wp_gettoken_cons h₄
    intro s₅ h₅
    rw [wp_bind]
    apply wp_parseredirs h₅ (by omega)
    rintro us₂ vs rs s₆ rfl hrs h₆
    exact hQ _ vs _ s₆ (by simp) (.block hcmd hrs) h₆
  · intro _ s₄ h₄
    exact ⟨nofun, nofun⟩

lemma Sound.exec (hline : Sound .line fuel) : Sound .exec (fuel + 2) := by
  intro s ts Q h hle hQ
  simp only [depth] at hle
  show wp Rejects (parseexec (fuel + 2)) Q s
  rw [parseexec]
  apply wp_peek_ite h (by decide)
  · intro hfirst s₁ h₁
    obtain ⟨us, rfl⟩ := exists_eq_cons_of_first (t := .left) hfirst (by simp)
    exact wp_parseblock hline h₁ (by simp at hle; omega) hQ
  · intro _ s₁ h₁
    rw [wp_bind]
    apply wp_parseredirs h₁ (by omega)
    rintro us ts₁ rs s₂ rfl hrs h₂
    rw [List.length_append] at hle
    rw [wp_bind]
    apply wp_parseargs h₂ (by omega) (by decide)
    rintro us₂ vs ws rs₂ s₃ rfl hargs hlen h₃
    rw [List.length_nil, Nat.zero_add] at hlen
    apply wp_ite
    · intro hge
      exact absurd hlen (Nat.not_lt.2 hge)
    · intro _
      exact hQ _ vs _ s₃ (by simp) (.words hrs hargs hlen) h₃

lemma sound (nt : Nonterminal) (fuel : ℕ) : Sound nt fuel := by
  induction fuel using Nat.strongRecOn generalizing nt with
  | _ fuel ih =>
  intro s ts Q h hle
  obtain ⟨n, rfl⟩ : ∃ n, fuel = n + 2 := ⟨fuel - 2, by cases nt <;> simp [depth] at hle <;> omega⟩
  cases nt with
  | line => exact Sound.line (ih (n + 1) (by omega) .pipe) (ih (n + 1) (by omega) .line) h hle
  | pipe => exact Sound.pipe (ih (n + 1) (by omega) .exec) (ih (n + 1) (by omega) .pipe) h hle
  | exec => exact Sound.exec (ih n (by omega) .line) h hle

/-! ### Following a derivation -/

/-- The symbols, or the end of the line, that may follow a nonterminal. -/
def follow : Nonterminal → List UInt8
  | .line => [0, 41]
  | .pipe => [0, 41, 38, 59]
  | .exec => [0, 41, 38, 59, 124]

lemma not_mem_of_first {L : List UInt8} (h : first ts ∈ L) (hL : L.all fun c => !toks.contains c) :
    first ts ∉ toks := by
  simpa using List.all_eq_true.1 hL _ h

lemma Token.Redirects.first_mem {w : Word} {r : Redir Word} (h : t.Redirects w r) :
    first (t :: ts) ∈ ([60, 62] : List UInt8) := by
  cases h <;> simp [first, Sh.code, Token.code]

lemma Token.Redirects.redirOf_code {w : Word} {r : Redir Word} (h : t.Redirects w r) :
    redirOf t.code w = r := by
  cases h <;> rfl

lemma Redirs.wp_parseredirs {Q : List (Redir Word) → Text → Prop} (h : Redirs ts rs)
    (hs : Lex s (ts ++ us)) (hlt : ts.length < fuel) (hus : first us ∉ ([60, 62] : List UInt8))
    (hQ : ∀ s', Lex s' us → Q rs s') : wp F (parseredirs fuel) Q s := by
  induction h generalizing s fuel Q with
  | nil =>
    obtain ⟨fuel, rfl⟩ := Nat.exists_eq_succ_of_ne_zero (Nat.ne_zero_of_lt hlt)
    exact wp_peek_neg hs (by decide) hus hQ
  | @cons t w r ts rs ht h ih =>
    obtain ⟨fuel, rfl⟩ := Nat.exists_eq_succ_of_ne_zero (Nat.ne_zero_of_lt hlt)
    apply wp_peek_pos hs (by decide) ht.first_mem
    intro s₁ h₁
    rw [wp_bind]
    apply wp_gettoken h₁
    intro w₁ s₂ _ h₂
    rw [wp_bind]
    apply wp_gettoken h₂
    intro w₂ s₃ hw h₃
    obtain rfl := hw w rfl
    apply wp_ite
    · intro hne
      exact absurd rfl hne
    intro _
    rw [wp_bind]
    apply ih h₃ (by simp at hlt ⊢; omega)
    intro s' hs'
    have hr : redirOf (code (t :: .word w₂ :: (ts ++ us))) w₂ = r := ht.redirOf_code
    rw [← hr] at hQ
    exact hQ s' hs'

/-- What follows the redirections in front of the words. -/
lemma Args.first_mem {ws : List Word} (h : Args ts ws rs) (hus : first us ∈ follow .exec) :
    first (ts ++ us) ∈ 97 :: follow .exec := by
  cases h with
  | nil => exact List.mem_cons_of_mem _ hus
  | cons hr h => exact List.mem_cons_self

lemma Redirs.first_mem (h : Redirs ts rs) (us : List (Token Word)) :
    first (ts ++ us) ∈ ([60, 62] : List UInt8) ∨ first (ts ++ us) = first us := by
  cases h with
  | nil => exact .inr rfl
  | cons ht h => exact .inl ht.first_mem

lemma eq_nil_of_first (h : first ts = 0) : ts = [] := by
  rcases ts with _ | ⟨_ | _, us⟩ <;> simp_all [first, code, Token.code]

lemma Args.wp_parseargs {ws argv : List Word} {rs' : List (Redir Word)}
    {Q : List Word × List (Redir Word) → Text → Prop} (h : Args ts ws rs') (hs : Lex s (ts ++ us))
    (hlt : ts.length < fuel) (hlen : argv.length + ws.length < MAXARGS)
    (hus : first us ∈ follow .exec) (hQ : ∀ s', Lex s' us → Q (argv ++ ws, rs ++ rs') s') :
    wp F (parseargs fuel argv rs) Q s := by
  induction h generalizing s fuel argv rs Q with
  | nil =>
    rw [List.append_nil, List.append_nil] at hQ
    obtain ⟨fuel, rfl⟩ := Nat.exists_eq_succ_of_ne_zero (Nat.ne_zero_of_lt hlt)
    apply wp_peek_ite hs (by decide)
    · intro _
      exact hQ
    · intro hfirst s₁ h₁
      -- nothing else may follow, so the line ends here
      have hend : first us = 0 := by
        simp only [follow, List.mem_cons, List.not_mem_nil, or_false] at hus hfirst
        tauto
      obtain rfl := eq_nil_of_first hend
      rw [wp_bind]
      apply wp_gettoken h₁
      intro w s₂ _ h₂
      exact hQ s₂ h₂
  | @cons w ts us' ws rs₁ rs₂ hr h ih =>
    obtain ⟨fuel, rfl⟩ := Nat.exists_eq_succ_of_ne_zero (Nat.ne_zero_of_lt hlt)
    rw [List.length_cons] at hlen
    apply wp_peek_neg hs (by decide) (show 97 ∉ ([124, 41, 38, 59] : List UInt8) by decide)
    intro s₁ h₁
    rw [wp_bind]
    apply wp_gettoken h₁
    intro w₁ s₂ hw h₂
    obtain rfl := hw w rfl
    apply wp_ite
    · exact fun hcode => absurd hcode (show (97 : UInt8) ≠ 0 by decide)
    intro _
    apply wp_ite
    · exact fun hcode => absurd rfl hcode
    intro _
    apply wp_ite
    · intro hge
      omega
    intro _
    apply wp_ite
    · intro hge
      omega
    intro _
    rw [wp_bind]
    rw [List.cons_append, List.tail_cons, List.append_assoc] at h₂
    simp only [List.length_cons, List.length_append] at hlt
    apply hr.wp_parseredirs h₂ (by omega) (not_mem_of_first (h.first_mem hus) (by decide))
    intro s₃ h₃
    apply ih h₃ (by omega) (by simp; omega)
    intro s' hs'
    simpa using hQ s' hs'

lemma wp_parsebacks_replicate {k : ℕ} (hs : Lex s (List.replicate k .amp ++ us)) (hlt : k < fuel)
    (hus : first us ∉ ([38] : List UInt8)) (hQ : ∀ s', Lex s' us → Q (backs k cmd) s') :
    wp F (parsebacks fuel cmd) Q s := by
  induction k generalizing s fuel cmd with
  | zero =>
    obtain ⟨fuel, rfl⟩ := Nat.exists_eq_succ_of_ne_zero (Nat.ne_zero_of_lt hlt)
    exact wp_peek_neg hs (by decide) hus hQ
  | succ k ih =>
    obtain ⟨fuel, rfl⟩ := Nat.exists_eq_succ_of_ne_zero (Nat.ne_zero_of_lt hlt)
    apply wp_peek_pos hs (by decide) (show (38 : UInt8) ∈ [38] by simp)
    intro s₁ h₁
    apply wp_gettoken_cons h₁
    intro s₂ h₂
    exact ih h₂ (by omega) hQ

lemma first_replicate_mem {k : ℕ} {L : List UInt8} (h : first us ∈ L) (hL : 38 ∈ L) :
    first (List.replicate k .amp ++ us) ∈ L := by
  cases k with
  | zero => exact h
  | succ k => exact hL

/-- The run follows every derivation, and returns its tree. -/
lemma Derives.wp_parse {nt : Nonterminal} (h : Derives nt ts cmd) (hs : Lex s (ts ++ us))
    (hle : 4 * (ts ++ us).length + depth nt ≤ fuel) (hus : first us ∈ follow nt)
    (hQ : ∀ s', Lex s' us → Q cmd s') : wp F (parse nt fuel) Q s := by
  induction h generalizing s us fuel Q with
  | @line ts cmd k h ih =>
    simp only [depth, List.length_append, List.length_replicate] at hle
    obtain ⟨fuel, rfl⟩ := Nat.exists_eq_succ_of_ne_zero (show fuel ≠ 0 by omega)
    show wp F (parseline (fuel + 1)) Q s
    rw [List.append_assoc] at hs
    rw [parseline, wp_bind]
    apply ih hs (by simp [depth]; omega)
    · exact first_replicate_mem ((show follow .line ⊆ follow .pipe by decide) hus) (by decide)
    intro s₁ h₁
    rw [wp_bind]
    apply wp_parsebacks_replicate h₁ (by omega) (not_mem_of_first hus (by decide))
    intro s₂ h₂
    exact wp_peek_neg h₂ (by decide) (not_mem_of_first hus (by decide)) hQ
  | @list ts us' left right k hl hr ihl ihr =>
    simp only [depth, List.length_append, List.length_cons, List.length_replicate] at hle
    obtain ⟨fuel, rfl⟩ := Nat.exists_eq_succ_of_ne_zero (show fuel ≠ 0 by omega)
    show wp F (parseline (fuel + 1)) Q s
    rw [List.append_assoc, List.append_assoc] at hs
    rw [parseline, wp_bind]
    apply ihl hs (by simp [depth]; omega)
    · exact first_replicate_mem (show 59 ∈ follow .pipe by decide) (by decide)
    intro s₁ h₁
    rw [wp_bind]
    apply wp_parsebacks_replicate h₁ (by omega) (show 59 ∉ ([38] : List UInt8) by decide)
    intro s₂ h₂
    apply wp_peek_pos h₂ (by decide) (show (59 : UInt8) ∈ [59] by simp)
    intro s₃ h₃
    apply wp_gettoken_cons h₃
    intro s₄ h₄
    rw [wp_bind]
    exact ihr h₄ (by simp [depth]; omega) hus hQ
  | single h ih =>
    simp only [depth] at hle
    obtain ⟨fuel, rfl⟩ := Nat.exists_eq_succ_of_ne_zero (show fuel ≠ 0 by omega)
    show wp F (parsepipe (fuel + 1)) Q s
    rw [parsepipe, wp_bind]
    apply ih hs (by simp only [depth]; omega) ((show follow .pipe ⊆ follow .exec by decide) hus)
    intro s₁ h₁
    exact wp_peek_neg h₁ (by decide) (not_mem_of_first hus (by decide)) hQ
  | @pipe ts us' left right hl hr ihl ihr =>
    simp only [depth, List.length_append, List.length_cons] at hle
    obtain ⟨fuel, rfl⟩ := Nat.exists_eq_succ_of_ne_zero (show fuel ≠ 0 by omega)
    show wp F (parsepipe (fuel + 1)) Q s
    rw [List.append_assoc] at hs
    rw [parsepipe, wp_bind]
    apply ihl hs (by simp [depth]; omega) (show 124 ∈ follow .exec by decide)
    intro s₁ h₁
    apply wp_peek_pos h₁ (by decide) (show (124 : UInt8) ∈ [124] by simp)
    intro s₂ h₂
    apply wp_gettoken_cons h₂
    intro s₃ h₃
    rw [wp_bind]
    exact ihr h₃ (by simp [depth]; omega) hus hQ
  | @block ts us' cmd rs h hr ih =>
    simp only [depth, List.length_append, List.length_cons] at hle
    obtain ⟨fuel, rfl⟩ : ∃ n, fuel = n + 2 := ⟨fuel - 2, by omega⟩
    show wp F (parseexec (fuel + 2)) Q s
    rw [List.cons_append, List.append_assoc] at hs
    rw [parseexec]
    apply wp_peek_pos hs (by decide) (show (40 : UInt8) ∈ [40] by simp)
    intro s₁ h₁
    rw [parseblock]
    apply wp_peek_pos h₁ (by decide) (show (40 : UInt8) ∈ [40] by simp)
    intro s₂ h₂
    apply wp_gettoken_cons h₂
    intro s₃ h₃
    rw [wp_bind]
    apply ih h₃ (by simp [depth]; omega) (show 41 ∈ follow .line by decide)
    intro s₄ h₄
    apply wp_peek_pos h₄ (by decide) (show (41 : UInt8) ∈ [41] by simp)
    intro s₅ h₅
    apply wp_gettoken_cons h₅
    intro s₆ h₆
    rw [wp_bind]
    exact hr.wp_parseredirs h₆ (by omega) (not_mem_of_first hus (by decide)) hQ
  | @words ts us' ws rs rs' hr ha hlt =>
    simp only [depth, List.length_append] at hle
    obtain ⟨fuel, rfl⟩ := Nat.exists_eq_succ_of_ne_zero (show fuel ≠ 0 by omega)
    show wp F (parseexec (fuel + 1)) Q s
    rw [List.append_assoc] at hs
    rw [parseexec]
    have hargs := ha.first_mem hus
    have hblock : first (ts ++ (us' ++ us)) ∉ ([40] : List UInt8) := by
      rcases hr.first_mem (us' ++ us) with hmem | heq
      · exact not_mem_of_first hmem (by decide)
      · rw [heq]
        exact not_mem_of_first hargs (by decide)
    apply wp_peek_neg hs (by decide) hblock
    intro s₁ h₁
    rw [wp_bind]
    apply hr.wp_parseredirs h₁ (by omega) (not_mem_of_first hargs (by decide))
    intro s₂ h₂
    rw [wp_bind]
    apply ha.wp_parseargs h₂ (by omega) (by simpa using hlt) hus
    intro s₃ h₃
    apply wp_ite
    · intro hge
      exact absurd hlt (Nat.not_lt.2 hge)
    · intro _
      exact hQ s₃ h₃

end Xv6.Sh
