import Mathlib.Tactic

/-!
# Numbers in a memory of bytes

Little-endian numbers of any width, at any address. A number that is stored is read back, and what
lies elsewhere is not changed.
-/

namespace Core

/-- The bytes of a memory. -/
abbrev Bytes := ℕ → UInt8

namespace Bytes

/-- The number in the `n` bytes from `a` on. -/
def read (m : Bytes) (a : ℕ) : ℕ → ℕ
  | 0 => 0
  | n + 1 => (m a).toNat + 256 * read m (a + 1) n

/-- Store a number in the `n` bytes from `a` on. -/
def write (m : Bytes) (a n w : ℕ) : Bytes :=
  fun x => if a ≤ x ∧ x < a + n then UInt8.ofNat (w / 256 ^ (x - a)) else m x

variable {m m' : Bytes} {a n : ℕ}

lemma read_congr (h : ∀ x, a ≤ x → x < a + n → m x = m' x) : read m a n = read m' a n := by
  induction n generalizing a with
  | zero => rfl
  | succ n ih =>
    rw [read, read, h a le_rfl (by omega), ih fun x h₁ h₂ => h x (by omega) (by omega)]

lemma read_lt (m : Bytes) (a n : ℕ) : read m a n < 256 ^ n := by
  induction n generalizing a with
  | zero => simp [read]
  | succ n ih =>
    have hbyte := (m a).toNat_lt
    have hrest := ih (a + 1)
    rw [read, pow_succ]
    omega

/-- What is stored is read back, as far as it fits. -/
lemma read_write_self (m : Bytes) (a n w : ℕ) : read (write m a n w) a n = w % 256 ^ n := by
  induction n generalizing m a w with
  | zero => rw [read, pow_zero, Nat.mod_one]
  | succ n ih =>
    have hhead : write m a (n + 1) w a = UInt8.ofNat w := by
      rw [write, if_pos (by omega), Nat.sub_self, pow_zero, Nat.div_one]
    have htail : read (write m a (n + 1) w) (a + 1) n
        = read (write m (a + 1) n (w / 256)) (a + 1) n := by
      apply read_congr
      intro x h₁ h₂
      obtain ⟨k, rfl⟩ : ∃ k, x = a + 1 + k := ⟨x - (a + 1), by omega⟩
      rw [write, write, if_pos (by omega), if_pos (by omega), Nat.add_sub_cancel_left,
        show a + 1 + k - a = k + 1 by omega, Nat.div_div_eq_div_mul, pow_succ']
    rw [read, hhead, htail, ih, UInt8.toNat_ofNat', pow_succ' 256 n, Nat.mod_mul]

/-- What lies elsewhere is not changed. -/
lemma read_write_of_disjoint {b k w : ℕ} (h : a + n ≤ b ∨ b + k ≤ a) :
    read (write m b k w) a n = read m a n := by
  apply read_congr
  intro x h₁ h₂
  rw [write, if_neg (by omega)]

/-! ### Copies -/

/-- The `n` bytes from `src` on stand at `dst` as well. -/
def move (m : Bytes) (dst src n : ℕ) : Bytes :=
  fun x => if dst ≤ x ∧ x < dst + n then m (src + (x - dst)) else m x

lemma move_zero (m : Bytes) (dst src : ℕ) : move m dst src 0 = m := by
  funext x
  rw [move, if_neg (by omega)]

/-- A copy that starts with its first byte may overwrite what is before the rest of the source. -/
lemma move_succ_first {dst src : ℕ} (h : dst ≤ src ∨ src + (n + 1) ≤ dst) :
    move (Function.update m dst (m src)) (dst + 1) (src + 1) n = move m dst src (n + 1) := by
  funext x
  rcases lt_trichotomy x dst with hlt | rfl | hgt
  · rw [move, if_neg (by omega), Function.update_of_ne (by omega), move, if_neg (by omega)]
  · rw [move, if_neg (by omega), Function.update_self, move, if_pos (by omega), Nat.sub_self,
      Nat.add_zero]
  · by_cases hx : x < dst + (n + 1)
    · rw [move, if_pos (by omega), Function.update_of_ne (by omega), move, if_pos (by omega)]
      exact congrArg m (by omega)
    · rw [move, if_neg (by omega), Function.update_of_ne (by omega), move, if_neg (by omega)]

/-- A copy that starts with its last byte may overwrite what comes after the rest of the source. -/
lemma move_succ_last {dst src : ℕ} (h : src ≤ dst ∨ dst + (n + 1) ≤ src) :
    move (Function.update m (dst + n) (m (src + n))) dst src n = move m dst src (n + 1) := by
  funext x
  by_cases hin : dst ≤ x ∧ x < dst + n
  · rw [move, if_pos hin, Function.update_of_ne (by omega), move, if_pos (by omega)]
  · rw [move, if_neg hin]
    by_cases hx : x = dst + n
    · rw [hx, Function.update_self, move, if_pos (by omega), Nat.add_sub_cancel_left]
    · rw [Function.update_of_ne hx, move, if_neg (by omega)]

/-! ### Strings of bytes -/

/-- The `n` bytes from `a` on. -/
def load (m : Bytes) (a : ℕ) : ℕ → List UInt8
  | 0 => []
  | n + 1 => m a :: load m (a + 1) n

/-- The memory with the bytes `t` from `a` on. -/
def store (m : Bytes) (a : ℕ) : List UInt8 → Bytes
  | [] => m
  | c :: t => store (Function.update m a c) (a + 1) t

@[simp]
lemma length_load (m : Bytes) (a n : ℕ) : (load m a n).length = n := by
  induction n generalizing a with
  | zero => rfl
  | succ n ih => rw [load, List.length_cons, ih]

lemma load_congr (h : ∀ x, a ≤ x → x < a + n → m x = m' x) : load m a n = load m' a n := by
  induction n generalizing a with
  | zero => rfl
  | succ n ih =>
    rw [load, load, h a le_rfl (by omega), ih fun x h₁ h₂ => h x (by omega) (by omega)]

lemma load_add (m : Bytes) (a n k : ℕ) : load m a (n + k) = load m a n ++ load m (a + n) k := by
  induction n generalizing a with
  | zero => simp [load]
  | succ n ih =>
    rw [show n + 1 + k = n + k + 1 by omega, load, load, ih, List.cons_append]
    congr 3
    omega

/-- A string stands in a memory when its parts do. -/
lemma load_eq_append {t u : List UInt8} :
    load m a (t ++ u).length = t ++ u ↔
      load m a t.length = t ∧ load m (a + t.length) u.length = u := by
  rw [List.length_append, load_add]
  constructor
  · intro h
    exact List.append_inj h (length_load ..)
  · rintro ⟨ht, hu⟩
    rw [ht, hu]

lemma store_of_lt {t : List UInt8} {x : ℕ} (hx : x < a) : store m a t x = m x := by
  induction t generalizing m a with
  | nil => rfl
  | cons c t ih => rw [store, ih (by omega), Function.update_of_ne (by omega)]

lemma load_store_self (m : Bytes) (a : ℕ) (t : List UInt8) : load (store m a t) a t.length = t := by
  induction t generalizing m a with
  | nil => rfl
  | cons c t ih =>
    rw [List.length_cons, load, store, ih, store_of_lt (by omega), Function.update_self]

lemma load_update_of_le {x : ℕ} {c : UInt8} (hx : x < a ∨ a + n ≤ x) :
    load (Function.update m x c) a n = load m a n := by
  apply load_congr
  intro y h₁ h₂
  exact Function.update_of_ne (by omega) _ _

lemma load_move (m : Bytes) (dst src n : ℕ) : load (move m dst src n) dst n = load m src n := by
  have hgen : ∀ k j, j + k = n → load (move m dst src n) (dst + j) k = load m (src + j) k := by
    intro k
    induction k with
    | zero =>
      intro j hj
      rfl
    | succ k ih =>
      intro j hj
      rw [load, load, Nat.add_assoc dst, Nat.add_assoc src, ih (j + 1) (by omega), move,
        if_pos (by omega), Nat.add_sub_cancel_left]
  exact hgen n 0 (by omega)

end Bytes

end Core
