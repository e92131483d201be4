import Mathlib.Data.List.Range
import Mathlib.Logic.Function.Basic

/-!
# Tables of slots

A map that is kept in a row of slots, each of which is empty or holds a key with its value. A key is
looked up from the first slot on; as long as no key is there twice, entering a new key into an empty
slot and clearing the slot of a key change the map at this key only.
-/

namespace Core

/-- A row of `size` slots. -/
structure Slots (κ ν : Type*) where
  size : ℕ
  slot : ℕ → Option (κ × ν)

namespace Slots

variable {κ ν : Type*} (t : Slots κ ν)

/-- The slot is one of the row and holds the key. -/
def HasKey (key : κ) (k : ℕ) : Prop := k < t.size ∧ (t.slot k).map Prod.fst = some key

/-- No key is there twice. -/
def Unique : Prop := ∀ key j k, t.HasKey key j → t.HasKey key k → j = k

/-- The slot `k`, which may be the one behind the last, gets a key with its value. -/
def put (k : ℕ) (x : κ × ν) : Slots κ ν where
  size := max t.size (k + 1)
  slot := Function.update t.slot k (some x)

/-- The slot `k` becomes empty. -/
def clear (k : ℕ) : Slots κ ν := { t with slot := Function.update t.slot k none }

variable {t} {key key' : κ} {v : ν} {j k : ℕ}

lemma hasKey_put_of_ne (hempty : k < t.size → t.slot k = none) (hle : k ≤ t.size)
    (hne : key' ≠ key) : (t.put k (key, v)).HasKey key' j ↔ t.HasKey key' j := by
  rcases eq_or_ne j k with rfl | hj
  · refine iff_of_false ?_ ?_
    · rintro ⟨-, h⟩
      simp only [put, Function.update_self] at h
      exact hne (Option.some.inj h).symm
    · rintro ⟨hlt, h⟩
      rw [hempty hlt] at h
      cases h
  · simp only [HasKey, put, Function.update_of_ne hj]
    refine and_congr_left fun _ => ?_
    omega

lemma hasKey_put_self (hle : k ≤ t.size) (hno : ∀ j, ¬t.HasKey key j) :
    (t.put k (key, v)).HasKey key j ↔ j = k := by
  constructor
  · rintro ⟨hlt, h⟩
    by_contra hj
    simp only [put, Function.update_of_ne hj] at h hlt
    exact hno j ⟨by omega, h⟩
  · rintro rfl
    simp only [HasKey, put, Function.update_self]
    exact ⟨by omega, rfl⟩

lemma hasKey_clear : (t.clear k).HasKey key j ↔ j ≠ k ∧ t.HasKey key j := by
  rcases eq_or_ne j k with rfl | hj
  · simp [HasKey, clear]
  · simp [HasKey, clear, hj]

lemma Unique.put (h : t.Unique) (hempty : k < t.size → t.slot k = none) (hle : k ≤ t.size)
    (hno : ∀ j, ¬t.HasKey key j) : (t.put k (key, v)).Unique := by
  intro key' i j hi hj
  rcases eq_or_ne key' key with rfl | hne
  · rw [hasKey_put_self hle hno] at hi hj
    rw [hi, hj]
  · rw [hasKey_put_of_ne hempty hle hne] at hi hj
    exact h key' i j hi hj

lemma Unique.clear (h : t.Unique) : (t.clear k).Unique := by
  intro key i j hi hj
  exact h key i j (hasKey_clear.mp hi).2 (hasKey_clear.mp hj).2

/-! ### Looking up keys -/

section Lookup

variable [DecidableEq κ]

instance (key : κ) (k : ℕ) : Decidable (t.HasKey key k) := inferInstanceAs (Decidable (_ ∧ _))

variable (t) in
/-- The first slot with the key. -/
def find (key : κ) : Option ℕ := (List.range t.size).find? fun k => t.HasKey key k

variable (t) in
/-- The value of the key. -/
def lookup (key : κ) : Option ν := (t.find key).bind fun k => (t.slot k).map Prod.snd

lemma find_eq_some_iff : t.find key = some k ↔ t.HasKey key k ∧ ∀ j < k, ¬t.HasKey key j := by
  rw [find, List.find?_range_eq_some]
  simp only [decide_eq_true_eq, List.mem_range, Bool.not_eq_true', decide_eq_false_iff_not]
  exact ⟨fun h => ⟨h.1, h.2.2⟩, fun h => ⟨h.1, h.1.1, h.2⟩⟩

lemma find_eq_none_iff : t.find key = none ↔ ∀ k, ¬t.HasKey key k := by
  rw [find, List.find?_range_eq_none]
  simp only [Bool.not_eq_true', decide_eq_false_iff_not]
  exact ⟨fun h k hk => h k hk.1 hk, fun h k _ => h k⟩

/-- A key that is there once is found wherever it is. -/
lemma Unique.find_eq_some_iff (h : t.Unique) : t.find key = some k ↔ t.HasKey key k := by
  rw [Slots.find_eq_some_iff, and_iff_left_iff_imp]
  intro hk j hj hkey
  exact hj.ne (h key j k hkey hk)

/-- Rows in which a key is in the same slots, with the same values, agree on it. -/
lemma lookup_congr {t' : Slots κ ν} (hkey : ∀ k, t'.HasKey key k ↔ t.HasKey key k)
    (hslot : ∀ k, t.HasKey key k → t'.slot k = t.slot k) : t'.lookup key = t.lookup key := by
  have hfind : t'.find key = t.find key := by
    cases hk : t.find key with
    | none =>
      rw [find_eq_none_iff] at hk ⊢
      exact fun k => mt (hkey k).mp (hk k)
    | some k =>
      rw [Slots.find_eq_some_iff] at hk ⊢
      exact ⟨(hkey k).mpr hk.1, fun j hj => mt (hkey j).mp (hk.2 j hj)⟩
  rw [lookup, lookup, hfind]
  cases hk : t.find key with
  | none => rfl
  | some k => rw [Option.bind_some, Option.bind_some, hslot k (Slots.find_eq_some_iff.mp hk).1]

lemma lookup_eq_none_iff : t.lookup key = none ↔ ∀ k, ¬t.HasKey key k := by
  rw [← find_eq_none_iff, lookup]
  cases hk : t.find key with
  | none => simp
  | some k =>
    obtain ⟨x, hx, -⟩ := Option.map_eq_some_iff.mp (Slots.find_eq_some_iff.mp hk).1.2
    simp [hx]

lemma Unique.lookup_eq (h : t.Unique) (hk : k < t.size) (hslot : t.slot k = some (key, v)) :
    t.lookup key = some v := by
  have hfind : t.find key = some k := h.find_eq_some_iff.mpr ⟨hk, by rw [hslot]; rfl⟩
  rw [lookup, hfind, Option.bind_some, hslot]
  rfl

/-- Entering a new key. -/
lemma Unique.lookup_put (h : t.Unique) (hempty : k < t.size → t.slot k = none) (hle : k ≤ t.size)
    (hno : ∀ j, ¬t.HasKey key j) :
    (t.put k (key, v)).lookup key' = if key' = key then some v else t.lookup key' := by
  split
  · next heq =>
    subst heq
    apply (h.put hempty hle hno).lookup_eq (k := k)
    · simp only [Slots.put]
      omega
    · simp only [Slots.put, Function.update_self]
  · next hne =>
    apply lookup_congr
    · exact fun j => hasKey_put_of_ne hempty hle hne
    · intro j hj
      refine Function.update_of_ne ?_ _ _
      rintro rfl
      obtain ⟨hlt, h⟩ := hj
      rw [hempty hlt] at h
      cases h

end Lookup

end Slots

end Core
