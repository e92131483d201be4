import Mathlib.Algebra.BigOperators.Group.Finset.Basic
import Mathlib.Algebra.Group.Pointwise.Set.BigOperators

/-!
# Assertions about parts of a memory

A part of a memory is a multiset of cells, each a place with its content; an assertion is a set of
parts. Assertions are added pointwise: a part satisfies `A + B` when it can be split into a part
that satisfies `A` and one that satisfies `B`. So the separating conjunction is the addition of a
commutative monoid, and the iterated one is a sum over a finite set.

The places of a memory are different from each other. Hence a cell that an assertion speaks about
can be read and written without regard to the rest (`Holds.read`, `Holds.write`), and what the
summands of an assertion speak about is disjoint (`Holds.ne`).
-/

namespace Core

open scoped Pointwise

/-- Assertions about parts of a memory with places `κ` and contents `υ`. -/
abbrev Assn (κ υ : Type) := Set (Multiset (κ × υ))

variable {κ υ ι : Type}

variable {P : ι → Assn κ υ} {s : Finset ι}

namespace Assn

/-- The cell `k` with content `v`. -/
def pts (k : κ) (v : υ) : Assn κ υ := {{(k, v)}}

/-- The cell `k`, whatever its content. -/
def own (k : κ) : Assn κ υ := {x | ∃ v, x ∈ pts k v}

lemma pts_subset_own (k : κ) (v : υ) : pts k v ⊆ own k := fun _ hx => ⟨v, hx⟩

/-- What holds of an assertion with an existential quantifier holds for some witness. -/
lemma exists_of_mem_setOf_add {R : Assn κ υ} {x : Multiset (κ × υ)}
    (h : x ∈ {y | ∃ i, y ∈ P i} + R) : ∃ i, x ∈ P i + R := by
  obtain ⟨y, ⟨i, hy⟩, z, hz, rfl⟩ := h
  exact ⟨i, y, hy, z, hz, rfl⟩

/-- Assertions that no cell is needed for, together. -/
lemma zero_mem_sum (h : ∀ i ∈ s, (0 : Multiset (κ × υ)) ∈ P i) :
    (0 : Multiset (κ × υ)) ∈ ∑ i ∈ s, P i := by
  classical
  induction s using Finset.induction_on with
  | empty => exact Set.mem_singleton _
  | insert i s hi ih =>
    rw [Finset.sum_insert hi]
    refine ⟨0, h i (Finset.mem_insert_self i s), 0, ?_, add_zero 0⟩
    exact ih fun j hj => h j (Finset.mem_insert_of_mem hj)

end Assn

open Assn

/-- The cells of the memory `m` at the places `D`. -/
def cells (D : Finset κ) (m : κ → υ) : Multiset (κ × υ) := D.val.map fun k => (k, m k)

/-- The memory `m` at the places `D` satisfies the assertion `A`. -/
def Holds (D : Finset κ) (m : κ → υ) (A : Assn κ υ) : Prop := cells D m ∈ A

variable {D : Finset κ} {m : κ → υ} {A B R : Assn κ υ} {k k' : κ} {v v' : υ}

lemma mem_cells {c : κ × υ} : c ∈ cells D m ↔ c.1 ∈ D ∧ m c.1 = c.2 := by
  obtain ⟨k, v⟩ := c
  simp only [cells, Multiset.mem_map, Finset.mem_val, Prod.mk.injEq]
  constructor
  · rintro ⟨_, hk, rfl, rfl⟩
    exact ⟨hk, rfl⟩
  · rintro ⟨hk, rfl⟩
    exact ⟨k, hk, rfl, rfl⟩

lemma nodup_cells : (cells D m).Nodup := D.nodup.map fun _ _ h => congrArg Prod.fst h

namespace Holds

lemma mono (h : Holds D m A) (hAB : A ⊆ B) : Holds D m B := hAB h

/-- Part of an assertion is replaced by a weaker one. -/
lemma mono_left (h : Holds D m (A + R)) (hAB : A ⊆ B) : Holds D m (B + R) :=
  h.mono (Set.add_subset_add_right hAB)

/-- The summands are taken in another order. -/
lemma perm (h : Holds D m A) (hAB : A = B) : Holds D m B := hAB ▸ h

lemma exists_left (h : Holds D m ({y | ∃ i, y ∈ P i} + R)) :
    ∃ i, Holds D m (P i + R) := exists_of_mem_setOf_add h

lemma exists_pts (h : Holds D m (own k + R)) : ∃ v, Holds D m (pts k v + R) := h.exists_left

/-- The rest of the memory, apart from a cell. -/
lemma eq_cons (h : Holds D m (pts k v + R)) : ∃ x ∈ R, cells D m = (k, v) ::ₘ x := by
  obtain ⟨y, rfl, x, hx, heq⟩ := h
  exact ⟨x, hx, heq.symm⟩

/-- A cell has the content that the assertion gives it. -/
lemma read (h : Holds D m (pts k v + R)) : m k = v := by
  obtain ⟨x, -, heq⟩ := h.eq_cons
  have hmem : (k, v) ∈ cells D m := heq ▸ Multiset.mem_cons_self _ _
  exact (mem_cells.mp hmem).2

lemma mem (h : Holds D m (pts k v + R)) : k ∈ D := by
  obtain ⟨x, -, heq⟩ := h.eq_cons
  have hmem : (k, v) ∈ cells D m := heq ▸ Multiset.mem_cons_self _ _
  exact (mem_cells.mp hmem).1

/-- A cell is written; the rest of the memory stays. -/
lemma write [DecidableEq κ] (h : Holds D m (pts k v + R)) (v' : υ) :
    Holds D (Function.update m k v') (pts k v' + R) := by
  obtain ⟨x, hx, heq⟩ := h.eq_cons
  refine ⟨{(k, v')}, rfl, x, hx, ?_⟩
  have hD : D.val = k ::ₘ D.val.erase k := (Multiset.cons_erase h.mem).symm
  have hne : ∀ j ∈ D.val.erase k, j ≠ k := by
    rintro j hj rfl
    exact D.nodup.notMem_erase hj
  have hrest : (D.val.erase k).map (fun j => (j, m j)) = x := by
    have h₁ : cells D m = (k, m k) ::ₘ (D.val.erase k).map fun j => (j, m j) := by
      rw [cells]
      conv_lhs => rw [hD]
      rw [Multiset.map_cons]
    rw [h₁, h.read] at heq
    exact (Multiset.cons_inj_right _).mp heq
  have h₂ : cells D (Function.update m k v')
      = (k, v') ::ₘ (D.val.erase k).map fun j => (j, Function.update m k v' j) := by
    rw [cells]
    conv_lhs => rw [hD]
    rw [Multiset.map_cons, Function.update_self]
  have h₃ : (D.val.erase k).map (fun j => (j, Function.update m k v' j))
      = (D.val.erase k).map fun j => (j, m j) := by
    apply Multiset.map_congr rfl
    intro j hj
    rw [Function.update_of_ne (hne j hj)]
  rw [h₂, h₃, hrest]
  rfl

/-- Different summands speak about different cells. -/
lemma ne (h : Holds D m (own k + (own k' + R))) : k ≠ k' := by
  rintro rfl
  obtain ⟨v, hv⟩ := h.exists_pts
  obtain ⟨x, ⟨y, ⟨v', rfl⟩, z, -, rfl⟩, heq⟩ := hv.eq_cons
  have hnodup : (cells D m).Nodup := nodup_cells
  have hmem : (k, v') ∈ cells D m := by
    rw [heq]
    exact Multiset.mem_cons_of_mem (Multiset.mem_cons_self _ _)
  have hv' : v = v' := hv.read.symm.trans (mem_cells.mp hmem).2
  subst hv'
  rw [heq] at hnodup
  exact (Multiset.nodup_cons.mp hnodup).1 (Multiset.mem_cons_self _ _)

end Holds

/-- Every memory is made of its cells. -/
lemma holds_sum_own (D : Finset κ) (m : κ → υ) : Holds D m (∑ k ∈ D, own k) := by
  classical
  induction D using Finset.induction_on with
  | empty => exact Set.mem_singleton _
  | insert k D hk ih =>
    rw [Finset.sum_insert hk]
    refine ⟨{(k, m k)}, ⟨m k, rfl⟩, cells D m, ih, ?_⟩
    simp only [cells, Finset.insert_val_of_notMem hk, Multiset.map_cons]
    rfl

/-! ### Which cells an assertion speaks about -/

/-- The assertion speaks about the places `K`, each as often as `K` has it. -/
def Assn.Covers (A : Assn κ υ) (K : Multiset κ) : Prop := ∀ x ∈ A, x.map Prod.fst = K

namespace Assn.Covers

variable {K L : Multiset κ}

lemma zero : Covers (0 : Assn κ υ) 0 := by
  rintro x rfl
  rfl

lemma pts (k : κ) (v : υ) : Covers (pts k v) {k} := by
  rintro x rfl
  rfl

lemma own (k : κ) : Covers (own k : Assn κ υ) {k} := by
  rintro x ⟨v, rfl⟩
  rfl

lemma add (hA : Covers A K) (hB : Covers B L) : Covers (A + B) (K + L) := by
  rintro x ⟨y, hy, z, hz, rfl⟩
  show (y + z).map Prod.fst = K + L
  rw [Multiset.map_add, hA y hy, hB z hz]

lemma sum {K : ι → Multiset κ} (h : ∀ i ∈ s, Covers (P i) (K i)) :
    Covers (∑ i ∈ s, P i) (∑ i ∈ s, K i) := by
  classical
  induction s using Finset.induction_on with
  | empty => exact zero
  | insert i s hi ih =>
    rw [Finset.sum_insert hi, Finset.sum_insert hi]
    apply (h i (Finset.mem_insert_self i s)).add
    exact ih fun j hj => h j (Finset.mem_insert_of_mem hj)

end Assn.Covers

/-- No more cells are owned than there are. -/
lemma Holds.card_le {f : ι → κ} (h : Holds D m (∑ i ∈ s, own (f i) + R)) : s.card ≤ D.card := by
  obtain ⟨y, hy, z, -, heq⟩ := h
  have hcard : y.card = s.card := by
    rw [← Multiset.card_map Prod.fst, Covers.sum (fun i _ => Covers.own (f i)) y hy]
    simp
  have hle : y.card ≤ (cells D m).card := by
    rw [← heq]
    exact (Multiset.card_add y z).symm ▸ Nat.le_add_right _ _
  rwa [hcard, cells, Multiset.card_map] at hle

end Core
