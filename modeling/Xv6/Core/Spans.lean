import Mathlib.Data.List.Pairwise
import Mathlib.Order.Interval.Set.LinearOrder

/-!
# Disjoint spans

A list of half-open spans that are pairwise disjoint and lie within a set, as an allocator keeps
them. Neighbours can be joined and a span can be cut in two; the order of the list does not matter.
-/

namespace Core

/-- The half-open interval from `lo` to `hi`. -/
structure Span (α : Type*) where
  lo : α
  hi : α

namespace Span

variable {α : Type*} [LinearOrder α]

/-- The elements of a span. -/
def carrier (a : Span α) : Set α := Set.Ico a.lo a.hi

/-- One of the spans lies before the other. -/
def Apart (a b : Span α) : Prop := a.hi ≤ b.lo ∨ b.hi ≤ a.lo

lemma Apart.symm {a b : Span α} (h : Apart a b) : Apart b a := Or.symm h

/-- The spans are not empty, lie apart from each other and within the set `P`. -/
structure Packed (P : Set α) (l : List (Span α)) : Prop where
  apart : l.Pairwise Apart
  lt : ∀ a ∈ l, a.lo < a.hi
  subset : ∀ a ∈ l, a.carrier ⊆ P

namespace Packed

variable {P Q : Set α} {l l' : List (Span α)} {a b c : α}

lemma nil : Packed P ([] : List (Span α)) := ⟨.nil, by simp, by simp⟩

lemma perm (h : Packed P l) (hl : l.Perm l') : Packed P l' where
  apart := hl.pairwise h.apart fun hab => hab.symm
  lt x hx := h.lt x (hl.mem_iff.mpr hx)
  subset x hx := h.subset x (hl.mem_iff.mpr hx)

lemma mono (h : Packed P l) (hPQ : P ⊆ Q) : Packed Q l :=
  ⟨h.apart, h.lt, fun x hx => (h.subset x hx).trans hPQ⟩

variable {x : Span α}

lemma tail (h : Packed P (x :: l)) : Packed P l where
  apart := (List.pairwise_cons.mp h.apart).2
  lt y hy := h.lt y (List.mem_cons_of_mem x hy)
  subset y hy := h.subset y (List.mem_cons_of_mem x hy)

lemma cons (h : Packed P l) (hapart : ∀ y ∈ l, Apart x y) (hlt : x.lo < x.hi)
    (hsub : x.carrier ⊆ P) : Packed P (x :: l) where
  apart := List.pairwise_cons.mpr ⟨hapart, h.apart⟩
  lt := List.forall_mem_cons.mpr ⟨hlt, h.lt⟩
  subset := List.forall_mem_cons.mpr ⟨hsub, h.subset⟩

lemma head_apart {y : Span α} (h : Packed P (x :: l)) (hy : y ∈ l) : Apart x y :=
  (List.pairwise_cons.mp h.apart).1 y hy

/-- The spans lie between the bounds of the set. -/
lemma bounds (h : Packed P l) {lo hi : α} (hP : ∀ x ∈ P, lo ≤ x ∧ x < hi) (hx : x ∈ l) :
    lo ≤ x.lo ∧ x.hi ≤ hi := by
  refine ⟨(hP _ (h.subset x hx ⟨le_rfl, h.lt x hx⟩)).1, ?_⟩
  by_contra hlt
  -- the larger of `x.lo` and `hi` would be in the set
  have hmem : max x.lo hi ∈ P :=
    h.subset x hx ⟨le_max_left _ _, max_lt (h.lt x hx) (not_le.mp hlt)⟩
  exact absurd (hP _ hmem).2 (not_lt.mpr (le_max_right _ _))

lemma carrier_union (hab : a ≤ b) (hbc : b ≤ c) :
    (⟨a, b⟩ : Span α).carrier ∪ (⟨b, c⟩ : Span α).carrier = (⟨a, c⟩ : Span α).carrier :=
  Set.Ico_union_Ico_eq_Ico hab hbc

/-- Neighbours are joined. -/
lemma join (h : Packed P (⟨a, b⟩ :: ⟨b, c⟩ :: l)) : Packed P (⟨a, c⟩ :: l) := by
  have hab : a < b := h.lt _ (List.mem_cons_self ..)
  have hbc : b < c := h.tail.lt _ (List.mem_cons_self ..)
  refine h.tail.tail.cons ?_ (hab.trans hbc) ?_
  · intro y hy
    rcases h.tail.head_apart hy with hright | hleft
    · exact .inl hright
    · rcases h.head_apart (List.mem_cons_of_mem _ hy) with hright' | hleft'
      · -- a span between the two would be empty
        have hy' := h.lt y (List.mem_cons_of_mem _ (List.mem_cons_of_mem _ hy))
        exact absurd (hleft.trans hright') (not_le.mpr hy')
      · exact .inr hleft'
  · rw [← carrier_union hab.le hbc.le]
    exact Set.union_subset (h.subset _ (List.mem_cons_self ..))
      (h.tail.subset _ (List.mem_cons_self ..))

/-- A span is cut in two. -/
lemma cut (h : Packed P (⟨a, c⟩ :: l)) (hab : a < b) (hbc : b < c) :
    Packed P (⟨a, b⟩ :: ⟨b, c⟩ :: l) := by
  have hsub := h.subset _ (List.mem_cons_self ..)
  rw [← carrier_union hab.le hbc.le, Set.union_subset_iff] at hsub
  refine (h.tail.cons ?_ hbc hsub.2).cons ?_ hab hsub.1
  · exact fun y hy => (h.head_apart hy).imp_right fun hle => hle.trans hab.le
  · refine List.forall_mem_cons.mpr ⟨.inl le_rfl, fun y hy => ?_⟩
    exact (h.head_apart hy).imp_left fun hle => hbc.le.trans hle

/-- A span is added beyond the set. -/
lemma extend (h : Packed P l) (hP : ∀ x ∈ P, x < a) (hab : a < b) :
    Packed (P ∪ Set.Ico a b) (⟨a, b⟩ :: l) := by
  refine (h.mono Set.subset_union_left).cons ?_ hab Set.subset_union_right
  intro y hy
  right
  by_contra hlt
  -- the larger of `y.lo` and `a` would be in the set
  have hmem : max y.lo a ∈ P :=
    h.subset y hy ⟨le_max_left _ _, max_lt (h.lt y hy) (not_le.mp hlt)⟩
  exact absurd (hP _ hmem) (not_lt.mpr (le_max_right _ _))

end Packed

end Span

end Core
