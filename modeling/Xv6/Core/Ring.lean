import Mathlib.Tactic

/-!
# Rings

An array of `N` places that is used as a ring, seen against the history of all entries that were
ever put into it: it holds the entries from some position on. Positions in the history are natural
numbers; the counters of a program are these numbers modulo a power of two, of which `N` is a
divisor.
-/

namespace Core

variable {α : Type} {N r m : ℕ} {a : ℕ → α} {h : List α}

/-- The array `a` holds the entries of the history `h` from the position `r` on. -/
structure Ring (N : ℕ) (a : ℕ → α) (h : List α) (r : ℕ) : Prop where
  start_le : r ≤ h.length
  le_add : h.length ≤ r + N
  get : ∀ k, r ≤ k → ∀ x, h[k]? = some x → a (k % N) = x

namespace Ring

lemma nil (N : ℕ) (a : ℕ → α) : Ring N a [] 0 where
  start_le := le_rfl
  le_add := Nat.zero_le _
  get := fun k _ x hx => by simp at hx

/-- Two positions of a window that is not longer than the ring have different places. -/
lemma mod_ne {i j : ℕ} (hij : i < j) (hj : j < i + N) : i % N ≠ j % N := by
  intro heq
  have hdvd : N ∣ j - i := (Nat.modEq_iff_dvd' hij.le).mp heq
  have hle := Nat.le_of_dvd (by omega) hdvd
  omega

/-- An entry is put into a ring that is not full. -/
lemma push (hr : Ring N a h r) (hfree : h.length < r + N) (x : α) :
    Ring N (Function.update a (h.length % N) x) (h ++ [x]) r := by
  refine ⟨?_, ?_, ?_⟩
  · rw [List.length_append]
    exact hr.start_le.trans (Nat.le_add_right _ _)
  · rw [List.length_append, List.length_singleton]
    omega
  · intro k hk y hy
    rcases lt_trichotomy k h.length with hlt | rfl | hgt
    · rw [List.getElem?_append_left hlt] at hy
      rw [Function.update_of_ne (mod_ne hlt (by omega))]
      exact hr.get k hk y hy
    · rw [List.getElem?_append_right le_rfl, Nat.sub_self] at hy
      rw [Function.update_self]
      simpa using hy
    · rw [List.getElem?_append_right hgt.le, List.getElem?_eq_none (by simp; omega)] at hy
      cases hy

/-- The first entry of a ring that is not empty. -/
lemma exists_get (hr : Ring N a h r) (hne : r < h.length) : h[r]? = some (a (r % N)) := by
  rw [List.getElem?_eq_getElem hne]
  exact congrArg some (hr.get r le_rfl _ (List.getElem?_eq_getElem hne)).symm

/-- The first entry is taken out. -/
lemma pop (hr : Ring N a h r) (hne : r < h.length) : Ring N a h (r + 1) where
  start_le := hne
  le_add := hr.le_add.trans (by omega)
  get := fun k hk => hr.get k (by omega)

/-- The last entries are forgotten. -/
lemma take (hr : Ring N a h r) (hm : r ≤ m) : Ring N a (h.take m) r := by
  refine ⟨?_, ?_, ?_⟩
  · rw [List.length_take]
    exact le_min hm hr.start_le
  · rw [List.length_take]
    exact (min_le_right _ _).trans hr.le_add
  · intro k hk x hx
    rw [List.getElem?_take] at hx
    split_ifs at hx
    exact hr.get k hk x hx

/-- What the ring holds, in order. -/
lemma contents (hr : Ring N a h r) :
    (List.range (h.length - r)).map (fun k => a ((r + k) % N)) = h.drop r := by
  apply List.ext_getElem?
  intro k
  rw [List.getElem?_map, List.getElem?_drop]
  rcases lt_or_ge (r + k) h.length with hlt | hge
  · rw [List.getElem?_range (by omega), List.getElem?_eq_getElem hlt]
    exact congrArg some (hr.get (r + k) (by omega) _ (List.getElem?_eq_getElem hlt))
  · rw [List.getElem?_eq_none (by simpa using by omega), List.getElem?_eq_none hge]
    rfl

end Ring

/-! ### Counters of 32 bits -/

namespace Counter

variable {i j d : ℕ}

lemma toNat_mod (k : ℕ) (hN : N ∣ 2 ^ 32) : (UInt32.ofNat k).toNat % N = k % N := by
  rw [UInt32.toNat_ofNat', Nat.mod_mod_of_dvd k hN]

lemma succ (k : ℕ) : UInt32.ofNat k + 1 = UInt32.ofNat (k + 1) := by
  rw [UInt32.ofNat_add]
  rfl

lemma pred (k : ℕ) : UInt32.ofNat (k + 1) - 1 = UInt32.ofNat k := by
  rw [← succ, UInt32.add_sub_cancel]

/-- Counters that are close to each other are equal when the positions are. -/
lemma eq_iff (hle : i ≤ j) (hlt : j - i < 2 ^ 32) : UInt32.ofNat i = UInt32.ofNat j ↔ i = j := by
  constructor
  · intro heq
    have hmod := congrArg UInt32.toNat heq
    rw [UInt32.toNat_ofNat', UInt32.toNat_ofNat'] at hmod
    omega
  · rintro rfl
    rfl

/-- The distance of two counters. -/
lemma toNat_sub (hle : i ≤ j) (hlt : j - i < 2 ^ 32) :
    (UInt32.ofNat j - UInt32.ofNat i).toNat = j - i := by
  rw [UInt32.toNat_sub, UInt32.toNat_ofNat', UInt32.toNat_ofNat']
  omega

/-- The test for a full ring. -/
lemma eq_add_iff (hle : i ≤ j) (hlt : j ≤ i + d) (hd : d < 2 ^ 32) :
    UInt32.ofNat j = UInt32.ofNat i + UInt32.ofNat d ↔ j = i + d := by
  rw [← UInt32.ofNat_add]
  exact eq_iff hlt (by omega)

/-! ### Counters of 16 bits -/

lemma toNat_mod16 (k : ℕ) (hN : N ∣ 2 ^ 16) : (UInt16.ofNat k).toNat % N = k % N := by
  rw [UInt16.toNat_ofNat', Nat.mod_mod_of_dvd k hN]

lemma succ16 (k : ℕ) : UInt16.ofNat k + 1 = UInt16.ofNat (k + 1) := by
  rw [UInt16.ofNat_add]
  rfl

end Counter

end Core
