import Mathlib.Tactic

/-!
# Populations

How many of the places of a function hold a value, while the function is changed at one place after
another. There may be any number of places, as long as only finitely many hold the value.
-/

namespace Core

variable {ι α : Type*} {f : ι → α} {i : ι} {a x : α}

/-- The number of places that hold `a`. -/
noncomputable def population (f : ι → α) (a : α) : ℕ := {i | f i = a}.ncard

/-- Only finitely many places hold `a`. -/
def Sparse (f : ι → α) (a : α) : Prop := {i | f i = a}.Finite

lemma Sparse.of_ne (h : ∀ i, f i ≠ a) : Sparse f a := by
  have hempty : {i | f i = a} = ∅ := Set.eq_empty_of_forall_notMem h
  rw [Sparse, hempty]
  exact Set.finite_empty

lemma population_of_ne (h : ∀ i, f i ≠ a) : population f a = 0 := by
  have hempty : {i | f i = a} = ∅ := Set.eq_empty_of_forall_notMem h
  rw [population, hempty, Set.ncard_empty]

lemma population_pos (h : Sparse f a) (hi : f i = a) : 0 < population f a :=
  (Set.ncard_pos h).mpr ⟨i, hi⟩

/-- A place holds its value, and the others do as before. -/
lemma population_eq_diff [DecidableEq α] (h : Sparse f a) (i : ι) :
    population f a = ({j | f j = a} \ {i}).ncard + if f i = a then 1 else 0 := by
  split_ifs with hi
  · exact (Set.ncard_sdiff_singleton_add_one (s := {j | f j = a}) hi h).symm
  · rw [Set.sdiff_singleton_eq_self (by exact hi), population, add_zero]

variable [DecidableEq ι]

/-- The places that hold `a` after a change, but for the place of the change. -/
lemma setOf_update_diff (f : ι → α) (i : ι) (x : α) :
    {j | Function.update f i x j = a} \ {i} = {j | f j = a} \ {i} := by
  ext j
  rcases eq_or_ne j i with rfl | hji
  · simp
  · simp [hji]

lemma Sparse.update (h : Sparse f a) (i : ι) (x : α) : Sparse (Function.update f i x) a := by
  have hdiff : ({j | Function.update f i x j = a} \ {i}).Finite := by
    rw [setOf_update_diff]
    exact Set.Finite.sdiff h
  exact Set.Finite.of_sdiff hdiff (Set.finite_singleton i)

variable [DecidableEq α]

lemma population_update (h : Sparse f a) (i : ι) (x : α) :
    population (Function.update f i x) a + (if f i = a then 1 else 0) =
      population f a + if x = a then 1 else 0 := by
  rw [population_eq_diff h i, population_eq_diff (h.update i x) i, setOf_update_diff,
    Function.update_self]
  exact Nat.add_right_comm _ _ _

/-! ### Counting references -/

/-- The counters `ref` count how many places hold each item. -/
def Tally (c : ι → Option α) (ref : α → ℤ) : Prop :=
  ∀ a, Sparse c (some a) ∧ ref a = population c (some a)

namespace Tally

variable {c : ι → Option α} {ref ref' : α → ℤ} {j : ι}

omit [DecidableEq ι] [DecidableEq α] in
/-- An item that some place holds has been counted. -/
lemma pos (h : Tally c ref) (hi : c i = some a) : 0 < ref a := by
  have := population_pos (h a).1 hi
  rw [(h a).2]
  omega

omit [DecidableEq ι] [DecidableEq α] in
/-- An item that was counted once is in one place. -/
lemma inj (h : Tally c ref) (ha : ref a = 1) (hi : c i = some a) (hj : c j = some a) : i = j := by
  have hone : population c (some a) = 1 := by
    have := (h a).2
    omega
  obtain ⟨k, hk⟩ := Set.ncard_eq_one.mp hone
  have hi' : i ∈ ({k} : Set ι) := hk ▸ hi
  have hj' : j ∈ ({k} : Set ι) := hk ▸ hj
  rw [Set.mem_singleton_iff.mp hi', Set.mem_singleton_iff.mp hj']

lemma update (h : Tally c ref) (i : ι) (x : Option α)
    (href : ∀ a, ref' a + (if c i = some a then 1 else 0) = ref a + if x = some a then 1 else 0) :
    Tally (Function.update c i x) ref' := by
  intro a
  refine ⟨(h a).1.update i x, ?_⟩
  have hpop := population_update (h a).1 i x
  have hold := (h a).2
  have hnew := href a
  split_ifs at hpop hnew <;> omega

/-- A place takes an item, which is counted. -/
lemma enter (h : Tally c ref) (hi : c i = none) (a : α) :
    Tally (Function.update c i (some a)) (Function.update ref a (ref a + 1)) := by
  refine h.update i (some a) ?_
  intro b
  rw [hi, if_neg (Option.some_ne_none b).symm, add_zero]
  rcases eq_or_ne b a with rfl | hba
  · rw [Function.update_self, if_pos rfl]
  · rw [Function.update_of_ne hba, if_neg fun heq => hba (Option.some.inj heq).symm, add_zero]

/-- A place gives up an item, which is counted. -/
lemma leave (h : Tally c ref) (hi : c i = some a) :
    Tally (Function.update c i none) (Function.update ref a (ref a - 1)) := by
  refine h.update i none ?_
  intro b
  rw [hi, if_neg (Option.some_ne_none b).symm, add_zero]
  rcases eq_or_ne b a with rfl | hba
  · rw [Function.update_self, if_pos rfl, sub_add_cancel]
  · rw [Function.update_of_ne hba, if_neg fun heq => hba (Option.some.inj heq).symm, add_zero]

/-- An item goes from a place to another. -/
lemma move (h : Tally c ref) (hi : c i = some a) (hj : c j = none) :
    Tally (Function.update (Function.update c i none) j (some a)) ref := by
  have hij : j ≠ i := by
    rintro rfl
    rw [hj] at hi
    cases hi
  have hmoved := (h.leave hi).enter (i := j) ((Function.update_of_ne hij ..).trans hj) a
  rwa [Function.update_self, sub_add_cancel, Function.update_idem,
    Function.update_eq_self] at hmoved

end Tally

/-! ### The values in all places -/

section Contents

variable {ι α : Type*} {i : ι} {a : α} [Fintype ι] {c c' : ι → Option α}

/-- What the places hold. -/
def contents (c : ι → Option α) : Multiset α := ∑ i, (c i).elim 0 ({·})

lemma mem_contents : a ∈ contents c ↔ ∃ i, c i = some a := by
  rw [contents, Multiset.mem_sum]
  refine ⟨?_, ?_⟩
  · rintro ⟨i, -, hi⟩
    cases hc : c i with
    | none => simp [hc] at hi
    | some b =>
      rw [hc] at hi
      exact ⟨i, hc.trans (congrArg some (Multiset.mem_singleton.mp hi).symm)⟩
  · rintro ⟨i, hi⟩
    exact ⟨i, Finset.mem_univ i, by rw [hi]; exact Multiset.mem_singleton_self a⟩

/-- The place `i`, and the others. -/
lemma contents_eq_cons [DecidableEq ι] (hi : c i = some a) (hi' : c' i = none)
    (hother : ∀ j, j ≠ i → c' j = c j) : contents c = a ::ₘ contents c' := by
  have hrest : ∑ j ∈ Finset.univ.erase i, (c' j).elim 0 ({·} : α → Multiset α)
      = ∑ j ∈ Finset.univ.erase i, (c j).elim 0 ({·}) :=
    Finset.sum_congr rfl fun j hj => by rw [hother j (Finset.ne_of_mem_erase hj)]
  rw [contents, contents, ← Finset.add_sum_erase _ _ (Finset.mem_univ i),
    ← Finset.add_sum_erase (a := i) _ (fun j => (c' j).elim 0 ({·})) (Finset.mem_univ i), hi, hi',
    hrest]
  show {a} + _ = a ::ₘ (0 + _)
  rw [zero_add, Multiset.singleton_add]

lemma countP_contents {p : α → Prop} [DecidablePred p] [∀ i, Decidable (∃ a ∈ c i, p a)] :
    (contents c).countP p = (Finset.univ.filter fun i => ∃ a ∈ c i, p a).card := by
  rw [contents, ← Multiset.coe_countPAddMonoidHom, map_sum, Finset.card_filter]
  refine Finset.sum_congr rfl fun i _ => ?_
  rw [Multiset.coe_countPAddMonoidHom]
  rcases Option.eq_none_or_eq_some (c i) with hc | ⟨b, hc⟩
  · simp [hc]
  · by_cases hb : p b <;> simp [hc, hb, ← Multiset.cons_zero]

end Contents

end Core
