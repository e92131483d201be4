import Mathlib

/-!
# The regular expressions of grep

The matcher of `user/grep.c`, which looks at two characters of the pattern at a time and tries again
from the right place when it has read too much, and the language that a pattern stands for. What a
pointer into a string points to is the rest of the string, without its final zero.
-/

namespace Xv6.Grep

/-- A character string without its final zero. -/
abbrev Text := List UInt8

/-- `*s` -/
def deref (s : Text) : UInt8 := s.headD 0

@[simp]
lemma deref_nil : deref [] = 0 := rfl

@[simp]
lemma deref_cons (c : UInt8) (s : Text) : deref (c :: s) = c := rfl

/-! ### The matcher -/

mutual

/-- Search for `re` at the beginning of `text`. -/
def matchhere (re text : Text) : Bool :=
  if _h : deref re = 0 then
    true
  else if deref re.tail = 42 then
    matchstar (deref re) re.tail.tail text
  else if deref re = 36 ∧ deref re.tail = 0 then
    deref text = 0
  else if deref text ≠ 0 ∧ (deref re = 46 ∨ deref re = deref text) then
    matchhere re.tail text.tail
  else
    false
termination_by (re.length, text.length, 0)
decreasing_by all_goals
  cases re with
  | nil => exact absurd rfl _h
  | cons c re =>
    apply Prod.Lex.left
    simp only [List.tail_cons, List.length_tail, List.length_cons]
    omega

/-- Search for `c*re` at the beginning of `text`. -/
def matchstar (c : UInt8) (re text : Text) : Bool :=
  if matchhere re text then
    true
  else if _h : deref text ≠ 0 ∧ (deref text = c ∨ c = 46) then
    matchstar c re text.tail
  else
    false
termination_by (re.length, text.length, 1)
decreasing_by
  · exact Prod.Lex.right _ (Prod.Lex.right _ Nat.zero_lt_one)
  · cases text with
    | nil => exact absurd rfl _h.1
    | cons x text => exact Prod.Lex.right _ (Prod.Lex.left _ _ (Nat.lt_succ_self _))

end

/-- The loop of `match`, which looks at the empty string at the end of `text`, too. -/
def matchAnywhere (re : Text) : Text → Bool
  | [] => matchhere re []
  | c :: text =>
    if matchhere re (c :: text) then true
    else if c ≠ 0 then matchAnywhere re text
    else false

/-- `match(re, text)` -/
def reMatch (re text : Text) : Bool :=
  if deref re = 94 then matchhere re.tail text else matchAnywhere re text

/-! ### The language of a pattern -/

/-- The parts of a pattern. -/
inductive Item
  /-- One character: `c`, or any if `c` is `'.'`. -/
  | one (c : UInt8)
  /-- Any number of such characters. -/
  | star (c : UInt8)
  /-- The end of the text. -/
  | eol
  deriving DecidableEq, Repr

/-- The parts of a pattern behind the anchor. A character in front of `'*'` goes together with it;
`'$'` is special only at the end. -/
def items : Text → List Item
  | [] => []
  | [c] => if c = 36 then [.eol] else [.one c]
  | c :: d :: re => if d = 42 then .star c :: items re else .one c :: items (d :: re)

/-- The texts of one character that `c` stands for. -/
def oneOf (c : UInt8) : Language UInt8 := {w | ∃ x, w = [x] ∧ (c = 46 ∨ x = c)}

/-- The texts that begin with what the parts stand for. -/
def begins : List Item → Language UInt8
  | [] => ⊤
  | .one c :: is => oneOf c * begins is
  | .star c :: is => KStar.kstar (oneOf c) * begins is
  | .eol :: is => 1 ⊓ begins is

/-- The texts that a pattern matches. -/
def language (re : Text) : Language UInt8 :=
  if re.head? = some 94 then begins (items re.tail) else ⊤ * begins (items re)

/-! ### The matcher finds the texts of the language -/

variable {c x : UInt8} {re text : Text} {l : Language UInt8}

lemma nil_notMem_oneOf_mul : [] ∉ oneOf c * l := by
  rintro ⟨_, ⟨x, rfl, -⟩, b, -, h⟩
  cases h

lemma cons_mem_oneOf_mul : x :: text ∈ oneOf c * l ↔ (c = 46 ∨ x = c) ∧ text ∈ l := by
  constructor
  · rintro ⟨_, ⟨y, rfl, hy⟩, b, hb, h⟩
    obtain ⟨rfl, rfl⟩ := List.cons.inj h
    exact ⟨hy, hb⟩
  · rintro ⟨hx, htext⟩
    exact ⟨[x], ⟨x, rfl, hx⟩, text, htext, rfl⟩

/-- None, or one and then any number. -/
lemma mem_kstar_mul : text ∈ KStar.kstar (oneOf c) * l ↔
    text ∈ l ∨ text ∈ oneOf c * (KStar.kstar (oneOf c) * l) := by
  conv_lhs => rw [← Language.one_add_self_mul_kstar_eq_kstar, add_mul, one_mul, mul_assoc]
  exact Iff.rfl

lemma nil_mem_top_mul : [] ∈ ⊤ * l ↔ [] ∈ l := by
  constructor
  · rintro ⟨a, -, b, hb, h⟩
    rw [(List.append_eq_nil_iff.mp h).2] at hb
    exact hb
  · exact fun h => ⟨[], trivial, [], h, rfl⟩

lemma cons_mem_top_mul : x :: text ∈ ⊤ * l ↔ x :: text ∈ l ∨ text ∈ ⊤ * l := by
  constructor
  · rintro ⟨a, -, b, hb, h⟩
    cases a with
    | nil =>
      rw [← h]
      exact .inl hb
    | cons y a =>
      obtain ⟨rfl, rfl⟩ := List.cons.inj h
      exact .inr ⟨a, trivial, b, hb, rfl⟩
  · rintro (h | ⟨a, -, b, hb, rfl⟩)
    · exact ⟨[], trivial, x :: text, h, rfl⟩
    · exact ⟨x :: a, trivial, b, hb, rfl⟩

lemma ne_zero_of_notMem (h : 0 ∉ x :: text) : x ≠ 0 := by
  rintro rfl
  exact h List.mem_cons_self

/-- If the rest of the pattern is matched rightly, so is a star in front of it. -/
lemma matchstar_iff (hre : ∀ text, 0 ∉ text → (matchhere re text ↔ text ∈ l)) (htext : 0 ∉ text) :
    matchstar c re text ↔ text ∈ KStar.kstar (oneOf c) * l := by
  induction text with
  | nil =>
    rw [matchstar, mem_kstar_mul, ← hre [] htext]
    simp [nil_notMem_oneOf_mul]
  | cons x text ih =>
    have hx : x ≠ 0 := ne_zero_of_notMem htext
    rw [matchstar, mem_kstar_mul, cons_mem_oneOf_mul, ← hre _ htext,
      ← ih fun h => htext (List.mem_cons_of_mem _ h)]
    by_cases hhere : matchhere re (x :: text)
    · simp [hhere]
    · by_cases hclass : x = c ∨ c = 46 <;> simp [hhere, hx, hclass, or_comm]

/-! The pattern is taken apart as the matcher does it. -/

lemma matchhere_nil : matchhere [] text = true := by
  rw [matchhere]
  rfl

lemma matchhere_star (hc : c ≠ 0) : matchhere (c :: 42 :: re) text = matchstar c re text := by
  rw [matchhere]
  simp only [deref_cons, List.tail_cons, if_true, dif_neg hc]

lemma matchhere_eol : matchhere [36] text = decide (deref text = 0) := by
  rw [matchhere]
  rfl

/-- One character of the pattern is compared with one of the text. -/
lemma matchhere_one (hc : c ≠ 0) (hstar : deref re ≠ 42) (heol : ¬(c = 36 ∧ deref re = 0)) :
    matchhere (c :: re) text ↔
      (deref text ≠ 0 ∧ (c = 46 ∨ c = deref text)) ∧ matchhere re text.tail := by
  have hc : ¬deref (c :: re) = 0 := hc
  have heol : ¬(deref (c :: re) = 36 ∧ deref re = 0) := heol
  rw [matchhere, dif_neg hc, List.tail_cons, if_neg hstar, if_neg heol, deref_cons]
  split_ifs with hone <;> simp [hone]

lemma matchhere_one_iff (hc : c ≠ 0) (hstar : deref re ≠ 42) (heol : ¬(c = 36 ∧ deref re = 0))
    (hre : ∀ text, 0 ∉ text → (matchhere re text ↔ text ∈ l)) (htext : 0 ∉ text) :
    matchhere (c :: re) text ↔ text ∈ oneOf c * l := by
  rw [matchhere_one hc hstar heol]
  cases text with
  | nil => simp [nil_notMem_oneOf_mul]
  | cons x text =>
    have hx : x ≠ 0 := ne_zero_of_notMem htext
    rw [cons_mem_oneOf_mul, ← hre text fun h => htext (List.mem_cons_of_mem _ h), deref_cons,
      List.tail_cons, eq_comm (a := c) (b := x), and_iff_right hx]

lemma matchhere_iff (hre : 0 ∉ re) (htext : 0 ∉ text) :
    matchhere re text ↔ text ∈ begins (items re) := by
  induction re using items.induct generalizing text with
  | case1 => exact iff_of_true matchhere_nil trivial
  | case2 =>
    rw [matchhere_eol, items, if_pos rfl, begins, begins, inf_top_eq, Language.mem_one]
    cases text with
    | nil => simp
    | cons x text =>
      have hx : x ≠ 0 := ne_zero_of_notMem htext
      simp [hx]
  | case3 c hc =>
    rw [items, if_neg hc]
    apply matchhere_one_iff (ne_zero_of_notMem hre) (by decide) (fun h => hc h.1) _ htext
    exact fun text _ => iff_of_true matchhere_nil trivial
  | case4 c re ih =>
    rw [matchhere_star (ne_zero_of_notMem hre), items, if_pos rfl, begins]
    refine matchstar_iff (fun text htext => ih ?_ htext) htext
    exact fun h => hre (List.mem_cons_of_mem _ (List.mem_cons_of_mem _ h))
  | case5 c d re hd ih =>
    have hre' : 0 ∉ d :: re := fun h => hre (List.mem_cons_of_mem _ h)
    rw [items, if_neg hd, begins]
    exact matchhere_one_iff (ne_zero_of_notMem hre) hd (fun h => ne_zero_of_notMem hre' h.2)
      (fun text htext => ih hre' htext) htext

lemma matchAnywhere_iff (hre : 0 ∉ re) (htext : 0 ∉ text) :
    matchAnywhere re text ↔ text ∈ ⊤ * begins (items re) := by
  induction text with
  | nil => rw [matchAnywhere, nil_mem_top_mul, matchhere_iff hre htext]
  | cons x text ih =>
    have hx : x ≠ 0 := ne_zero_of_notMem htext
    rw [cons_mem_top_mul, ← matchhere_iff hre htext,
      ← ih fun h => htext (List.mem_cons_of_mem _ h), matchAnywhere, if_pos hx]
    split_ifs with hhere <;> simp [hhere]

/-- For every pattern and every text: the matcher, which always comes to an end, finds out whether
the text is in the language of the pattern. -/
theorem reMatch_iff (hre : 0 ∉ re) (htext : 0 ∉ text) :
    reMatch re text = true ↔ text ∈ language re := by
  cases re with
  | nil =>
    rw [reMatch, language, if_neg (by decide), if_neg (by decide), matchAnywhere_iff hre htext]
  | cons c re =>
    rw [reMatch, language, deref_cons, List.head?_cons, List.tail_cons]
    by_cases hc : c = 94
    · rw [if_pos hc, if_pos (congrArg some hc)]
      exact matchhere_iff (fun h => hre (List.mem_cons_of_mem _ h)) htext
    · rw [if_neg hc, if_neg (by simpa using hc)]
      exact matchAnywhere_iff hre htext

/-- The pattern `"^a.*$"` and the text `"ab"`. -/
theorem reMatch_ab : reMatch [94, 97, 46, 42, 36] [97, 98] = true ↔
    [97, 98] ∈ language [94, 97, 46, 42, 36] :=
  reMatch_iff (by decide) (by decide)

end Xv6.Grep
