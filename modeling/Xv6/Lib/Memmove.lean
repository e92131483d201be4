import Xv6.Core.Bytes

/-!
# Copies between ranges that may overlap

`memmove` of `kernel/string.c` and of `user/ulib.c`. Pointers are numbers below `2 ^ 64`, and their
arithmetic is modulo `2 ^ 64`: a pointer behind the last byte of the address space is 0. The two
functions choose the direction of the copy by different tests, but both avoid the direction in which
bytes would be overwritten that are still to be read.
-/

namespace Xv6.Lib

open Core

/-- `p + n` for a pointer `p`. -/
def advance (p n : ℕ) : ℕ := (p + n) % 2 ^ 64

/-- `p - 1` for a pointer `p`. -/
def retreat (p : ℕ) : ℕ := (p + (2 ^ 64 - 1)) % 2 ^ 64

/-- `while(n-- > 0) *d++ = *s++;` -/
def copyUp : ℕ → ℕ → ℕ → Bytes → Bytes
  | 0, _, _, m => m
  | n + 1, d, s, m => copyUp n (advance d 1) (advance s 1) (Function.update m d (m s))

/-- `while(n-- > 0) *--d = *--s;` -/
def copyDown : ℕ → ℕ → ℕ → Bytes → Bytes
  | 0, _, _, m => m
  | n + 1, d, s, m =>
    copyDown n (retreat d) (retreat s) (Function.update m (retreat d) (m (retreat s)))

/-- `memmove` of the kernel, with the memory before and after it. -/
def Kernel.memmove (dst src : ℕ) (n : UInt32) (m : Bytes) : ℕ × Bytes :=
  if n = 0 then
    (dst, m)
  else if src < dst ∧ advance src n.toNat > dst then
    (dst, copyDown n.toNat (advance dst n.toNat) (advance src n.toNat) m)
  else
    (dst, copyUp n.toNat dst src m)

/-- `memmove` of the user library. The loops make no round if `n` is negative, so that the end
pointers do not matter then. -/
def User.memmove (dst src : ℕ) (n : Int32) (m : Bytes) : ℕ × Bytes :=
  if src > dst then
    (dst, copyUp n.toInt.toNat dst src m)
  else
    (dst, copyDown n.toInt.toNat (advance dst n.toInt.toNat) (advance src n.toInt.toNat) m)

variable {dst src n : ℕ} {m : Bytes}

/-! ### The loops -/

/-- Going up is right unless the destination begins inside the source. -/
lemma copyUp_eq (hdst : dst + n ≤ 2 ^ 64) (hsrc : src + n ≤ 2 ^ 64)
    (h : dst ≤ src ∨ src + n ≤ dst) : copyUp n dst src m = m.move dst src n := by
  induction n generalizing dst src m with
  | zero => exact (m.move_zero dst src).symm
  | succ n ih =>
    rw [copyUp, ← Bytes.move_succ_first h]
    cases n with
    | zero => exact (Bytes.move_zero ..).symm
    | succ n =>
      -- there is a next round, so the pointers have not come to the end of the address space
      have hd : advance dst 1 = dst + 1 := Nat.mod_eq_of_lt (by omega)
      have hs : advance src 1 = src + 1 := Nat.mod_eq_of_lt (by omega)
      rw [hd, hs]
      exact ih (by omega) (by omega) (by omega)

/-- Going down is right unless the source begins inside the destination. -/
lemma copyDown_eq (hdst : dst + n ≤ 2 ^ 64) (hsrc : src + n ≤ 2 ^ 64)
    (h : src ≤ dst ∨ dst + n ≤ src) :
    copyDown n (advance dst n) (advance src n) m = m.move dst src n := by
  have hback : ∀ {p k : ℕ}, p + (k + 1) ≤ 2 ^ 64 → retreat (advance p (k + 1)) = advance p k := by
    intro p k _
    simp only [retreat, advance]
    omega
  have hin : ∀ {p k : ℕ}, p + (k + 1) ≤ 2 ^ 64 → advance p k = p + k := by
    intro p k _
    exact Nat.mod_eq_of_lt (by omega)
  induction n generalizing m with
  | zero => exact (m.move_zero dst src).symm
  | succ n ih =>
    rw [copyDown, hback hdst, hback hsrc, ← Bytes.move_succ_last h,
      ih (by omega) (by omega) (by omega), hin hdst, hin hsrc]

/-! ### The functions -/

lemma Kernel.memmove_eq (m : Bytes) (hn : n < 2 ^ 32) (hdst : dst + n ≤ 2 ^ 64)
    (hsrc : src + n ≤ 2 ^ 64) :
    Kernel.memmove dst src (UInt32.ofNat n) m = (dst, m.move dst src n) := by
  have hcount : (UInt32.ofNat n).toNat = n := UInt32.toNat_ofNat_of_lt hn
  unfold Kernel.memmove
  rw [hcount]
  split_ifs with hzero hoverlap
  · have hn : n = 0 := by rw [← hcount, hzero]; rfl
    rw [hn, Bytes.move_zero]
  · rw [copyDown_eq hdst hsrc (.inl hoverlap.1.le)]
  · rw [copyUp_eq hdst hsrc]
    -- below the destination, the end of the source is in front of the end of the destination
    by_cases hlt : src < dst
    · have hend : advance src n = src + n := Nat.mod_eq_of_lt (by omega)
      rw [hend] at hoverlap
      omega
    · omega

lemma User.memmove_eq (m : Bytes) (hn : n < 2 ^ 31) (hdst : dst + n ≤ 2 ^ 64)
    (hsrc : src + n ≤ 2 ^ 64) :
    User.memmove dst src (Int32.ofNat n) m = (dst, m.move dst src n) := by
  have hcount : (Int32.ofNat n).toInt.toNat = n := by
    rw [Int32.toInt_ofNat_of_lt (by omega), Int.toNat_natCast]
  unfold User.memmove
  rw [hcount]
  split_ifs with hgt
  · rw [copyUp_eq hdst hsrc (.inl hgt.le)]
  · rw [copyDown_eq hdst hsrc (.inl (Nat.not_lt.mp hgt))]

/-- For every memory and all ranges of less than `2 ^ 31` bytes that do not wrap around the address
space, whether they overlap or not: the `memmove` of the kernel and that of the user library both
copy the source as it was to the destination, and change no other byte. -/
theorem memmove_copies (m : Bytes) (hn : n < 2 ^ 31) (hdst : dst + n ≤ 2 ^ 64)
    (hsrc : src + n ≤ 2 ^ 64) :
    Kernel.memmove dst src (UInt32.ofNat n) m = (dst, m.move dst src n) ∧
      User.memmove dst src (Int32.ofNat n) m = (dst, m.move dst src n) :=
  ⟨Kernel.memmove_eq m (by omega) hdst hsrc, User.memmove_eq m hn hdst hsrc⟩

/-- Eight bytes are moved up by one, to the end of the address space. -/
theorem memmove_copies_end : (2 ^ 64 - 8) + 8 ≤ 2 ^ 64 ∧
    Kernel.memmove (2 ^ 64 - 8) (2 ^ 64 - 9) (UInt32.ofNat 8) UInt8.ofNat
      = (2 ^ 64 - 8, Bytes.move UInt8.ofNat (2 ^ 64 - 8) (2 ^ 64 - 9) 8) :=
  ⟨by norm_num, (memmove_copies UInt8.ofNat (by norm_num) (by norm_num) (by norm_num)).1⟩

end Xv6.Lib
