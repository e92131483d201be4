import Mathlib.Data.Set.Insert

/-!
# Exact bookkeeping of shared items

Items of a type `β` are handed out to places of a type `ρ`; `ref` says which item a place holds.
A set of marks is exact when it holds precisely the reserved items and the items that some place
holds, and no item is held by two places. Handing out an unmarked item and taking back a held one
keep the marks exact.
-/

namespace Core

variable {ρ β : Type*}

/-- The marks `used` are exact: they are the reserved items and the items in use, and each item in
use has one place. -/
structure Exact (reserved used : β → Prop) (ref : ρ → Option β) : Prop where
  used_iff : ∀ b, used b ↔ reserved b ∨ ∃ r, ref r = some b
  inj : ∀ {r r' b}, ref r = some b → ref r' = some b → r = r'
  not_reserved : ∀ {r b}, ref r = some b → ¬reserved b

namespace Exact

variable {reserved used : β → Prop} {ref : ρ → Option β} {r : ρ} {b : β}

lemma used_of_ref (h : Exact reserved used ref) (hr : ref r = some b) : used b :=
  (h.used_iff b).mpr (.inr ⟨r, hr⟩)

lemma ref_ne_of_not_used (h : Exact reserved used ref) (hb : ¬used b) (r : ρ) : ref r ≠ some b :=
  fun hr => hb (h.used_of_ref hr)

lemma ne_of_ref_ne (h : Exact reserved used ref) {r' : ρ} {b' : β} (hr : ref r = some b)
    (hr' : ref r' = some b') (hne : r ≠ r') : b ≠ b' := by
  rintro rfl
  exact hne (h.inj hr hr')

/-- An item is marked exactly when it is reserved or has exactly one place. -/
lemma used_iff_existsUnique (h : Exact reserved used ref) (b : β) :
    used b ↔ reserved b ∨ ∃! r, ref r = some b := by
  rw [h.used_iff b]
  apply or_congr_right
  constructor
  · rintro ⟨r, hr⟩
    exact ⟨r, hr, fun r' hr' => h.inj hr' hr⟩
  · rintro ⟨r, hr, -⟩
    exact ⟨r, hr⟩

section Update

variable [DecidableEq ρ]

/-- Mark an unmarked item and hand it to a place that holds none. -/
lemma alloc (h : Exact reserved used ref) (hb : ¬used b) (hr : ref r = none) :
    Exact reserved (fun x => used x ∨ x = b) (Function.update ref r (some b)) where
  used_iff x := by
    rw [h.used_iff x, or_assoc]
    apply or_congr_right
    constructor
    · rintro (⟨r', hr'⟩ | rfl)
      · have hne : r' ≠ r := by
          rintro rfl
          rw [hr] at hr'
          cases hr'
        exact ⟨r', by rwa [Function.update_of_ne hne]⟩
      · exact ⟨r, Function.update_self r _ _⟩
    · rintro ⟨r', hr'⟩
      rcases eq_or_ne r' r with rfl | hne
      · rw [Function.update_self, Option.some.injEq] at hr'
        exact .inr hr'.symm
      · rw [Function.update_of_ne hne] at hr'
        exact .inl ⟨r', hr'⟩
  inj := by
    -- the new item was unmarked, so no place held it
    intro r₁ r₂ x h₁ h₂
    rcases eq_or_ne r r₁ with rfl | hne₁ <;> rcases eq_or_ne r r₂ with rfl | hne₂
    · rfl
    · rw [Function.update_self, Option.some.injEq] at h₁
      rw [Function.update_of_ne hne₂.symm, ← h₁] at h₂
      exact absurd h₂ (h.ref_ne_of_not_used hb r₂)
    · rw [Function.update_self, Option.some.injEq] at h₂
      rw [Function.update_of_ne hne₁.symm, ← h₂] at h₁
      exact absurd h₁ (h.ref_ne_of_not_used hb r₁)
    · rw [Function.update_of_ne hne₁.symm] at h₁
      rw [Function.update_of_ne hne₂.symm] at h₂
      exact h.inj h₁ h₂
  not_reserved := by
    intro r' x hr'
    rcases eq_or_ne r' r with rfl | hne
    · rw [Function.update_self, Option.some.injEq] at hr'
      subst hr'
      exact fun hres => hb ((h.used_iff b).mpr (.inl hres))
    · rw [Function.update_of_ne hne] at hr'
      exact h.not_reserved hr'

/-- Take an item back from the place that holds it and erase its mark. -/
lemma free (h : Exact reserved used ref) (hr : ref r = some b) :
    Exact reserved (fun x => used x ∧ x ≠ b) (Function.update ref r none) where
  used_iff x := by
    rw [h.used_iff x]
    constructor
    · rintro ⟨hres | ⟨r', hr'⟩, hx⟩
      · exact .inl hres
      · have hne : r' ≠ r := by
          rintro rfl
          exact hx (Option.some.inj (hr'.symm.trans hr))
        exact .inr ⟨r', by rwa [Function.update_of_ne hne]⟩
    · rintro (hres | ⟨r', hr'⟩)
      · refine ⟨.inl hres, ?_⟩
        rintro rfl
        exact h.not_reserved hr hres
      · have hne : r' ≠ r := by
          rintro rfl
          simp at hr'
        rw [Function.update_of_ne hne] at hr'
        exact ⟨.inr ⟨r', hr'⟩, h.ne_of_ref_ne hr' hr hne⟩
  inj := by
    intro r₁ r₂ x h₁ h₂
    have hne₁ : r₁ ≠ r := by rintro rfl; simp at h₁
    have hne₂ : r₂ ≠ r := by rintro rfl; simp at h₂
    rw [Function.update_of_ne hne₁] at h₁
    rw [Function.update_of_ne hne₂] at h₂
    exact h.inj h₁ h₂
  not_reserved := by
    intro r' x hr'
    have hne : r' ≠ r := by rintro rfl; simp at hr'
    rw [Function.update_of_ne hne] at hr'
    exact h.not_reserved hr'

/-- An item goes from a place to another. -/
lemma move (h : Exact reserved used ref) {r' : ρ} (hr : ref r = some b) (hr' : ref r' = none) :
    Exact reserved used (Function.update (Function.update ref r none) r' (some b)) := by
  have hne : r' ≠ r := by
    rintro rfl
    rw [hr'] at hr
    cases hr
  have hmoved := (h.free hr).alloc (fun hb => hb.2 rfl) ((Function.update_of_ne hne ..).trans hr')
  have hused : (fun x => (used x ∧ x ≠ b) ∨ x = b) = used := by
    funext x
    rw [eq_iff_iff]
    constructor
    · rintro (⟨hx, -⟩ | rfl)
      · exact hx
      · exact h.used_of_ref hr
    · intro hx
      exact (em (x = b)).elim .inr fun hxb => .inl ⟨hx, hxb⟩
  rwa [hused] at hmoved

end Update

/-! ### Taking back several items

While the items of several places are taken back one by one, the places still name them; `hide P`
forgets what the places in `P` hold. -/

open Classical in
/-- The places outside `P`. -/
noncomputable def hide (P : Set ρ) (ref : ρ → Option β) : ρ → Option β :=
  fun r => if r ∈ P then none else ref r

variable {P : Set ρ}

lemma hide_of_mem (hr : r ∈ P) : hide P ref r = none := if_pos hr

lemma hide_of_notMem (hr : r ∉ P) : hide P ref r = ref r := if_neg hr

/-- The places in `P` are given up: their items lose their marks. -/
lemma free_all (h : Exact reserved used ref) (P : Set ρ) :
    Exact reserved (fun x => used x ∧ ∀ r ∈ P, ref r ≠ some x) (hide P ref) where
  used_iff x := by
    rw [h.used_iff x]
    constructor
    · rintro ⟨hres | ⟨r, hr⟩, hP⟩
      · exact .inl hres
      · have hmem : r ∉ P := fun hmem => hP r hmem hr
        exact .inr ⟨r, by rwa [hide_of_notMem hmem]⟩
    · rintro (hres | ⟨r, hr⟩)
      · exact ⟨.inl hres, fun r _ hr => h.not_reserved hr hres⟩
      · have hmem : r ∉ P := fun hmem => by simp [hide_of_mem hmem] at hr
        rw [hide_of_notMem hmem] at hr
        refine ⟨.inr ⟨r, hr⟩, ?_⟩
        intro r' hr' heq
        exact hmem (h.inj hr heq ▸ hr')
  inj := by
    intro r₁ r₂ x h₁ h₂
    have hmem₁ : r₁ ∉ P := fun hmem => by simp [hide_of_mem hmem] at h₁
    have hmem₂ : r₂ ∉ P := fun hmem => by simp [hide_of_mem hmem] at h₂
    rw [hide_of_notMem hmem₁] at h₁
    rw [hide_of_notMem hmem₂] at h₂
    exact h.inj h₁ h₂
  not_reserved := by
    intro r x hr
    have hmem : r ∉ P := fun hmem => by simp [hide_of_mem hmem] at hr
    rw [hide_of_notMem hmem] at hr
    exact h.not_reserved hr

end Exact

end Core
