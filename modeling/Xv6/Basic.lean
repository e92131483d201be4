import Mathlib.Tactic

/-!
# Parameters and blocks

The constants of `kernel/param.h` and `kernel/fs.h`, and disk blocks as byte arrays with the
little-endian `uint` view that the kernel takes of them when it casts `buf->data`.
-/

namespace Xv6

/-- Maximum number of processes. -/
def NPROC : ℕ := 64

instance : NeZero NPROC := ⟨by decide⟩

/-- Bytes per page. -/
def PGSIZE : ℕ := 4096

/-- Maximum number of blocks any file-system operation writes. -/
def MAXOPBLOCKS : ℕ := 10

/-- Maximum number of data blocks in the on-disk log. -/
def LOGSIZE : ℕ := MAXOPBLOCKS * 3

/-- Block size in bytes. -/
def BSIZE : ℕ := 1024

/-- Size of the file system in blocks. -/
def FSSIZE : ℕ := 1000

/-- The contents of one disk block. -/
abbrev Block := Fin BSIZE → UInt8

namespace Block

/-- The all-zero block. -/
def zero : Block := fun _ => 0

def byte (blk : Block) (i : ℕ) : UInt8 :=
  if h : i < BSIZE then blk ⟨i, h⟩ else 0

/-- The `i`-th `uint` of a block, `((uint*)data)[i]`. -/
def word (blk : Block) (i : ℕ) : ℕ :=
  (blk.byte (4 * i)).toNat + 256 * (blk.byte (4 * i + 1)).toNat
    + 256 ^ 2 * (blk.byte (4 * i + 2)).toNat + 256 ^ 3 * (blk.byte (4 * i + 3)).toNat

/-- Store the `uint` `w` as the `i`-th word of a block. -/
def setWord (blk : Block) (i w : ℕ) : Block :=
  fun j => if j.val / 4 = i then UInt8.ofNat (w / 256 ^ (j.val % 4)) else blk j

variable {i : ℕ}

lemma byte_setWord_self (blk : Block) {k : ℕ} (w : ℕ) (hi : i < BSIZE / 4) (hk : k < 4) :
    (blk.setWord i w).byte (4 * i + k) = UInt8.ofNat (w / 256 ^ k) := by
  have hlt : 4 * i + k < BSIZE := by simp only [BSIZE] at hi ⊢; omega
  have hdiv : (4 * i + k) / 4 = i := by omega
  have hmod : (4 * i + k) % 4 = k := by omega
  rw [byte, dif_pos hlt]
  simp only [setWord, hdiv, hmod, if_true]

lemma byte_setWord_of_ne (blk : Block) {j : ℕ} (w : ℕ) (hij : j / 4 ≠ i) :
    (blk.setWord i w).byte j = blk.byte j := by
  simp only [byte, setWord, if_neg hij]

lemma word_setWord_self (blk : Block) (w : ℕ) (hi : i < BSIZE / 4) :
    (blk.setWord i w).word i = w % 2 ^ 32 := by
  have h0 := byte_setWord_self blk w hi (show 0 < 4 by decide)
  have h1 := byte_setWord_self blk w hi (show 1 < 4 by decide)
  have h2 := byte_setWord_self blk w hi (show 2 < 4 by decide)
  have h3 := byte_setWord_self blk w hi (show 3 < 4 by decide)
  rw [Nat.add_zero] at h0
  simp only [word, h0, h1, h2, h3, UInt8.toNat_ofNat']
  norm_num
  omega

lemma word_setWord_of_ne (blk : Block) {j : ℕ} (w : ℕ) (hij : j ≠ i) :
    (blk.setWord i w).word j = blk.word j := by
  have h : ∀ k < 4, (blk.setWord i w).byte (4 * j + k) = blk.byte (4 * j + k) := by
    intro k hk
    apply byte_setWord_of_ne
    omega
  have h0 := h 0 (by decide)
  rw [Nat.add_zero] at h0
  simp only [word, h0, h 1 (by decide), h 2 (by decide), h 3 (by decide)]

end Block

/-- The value of a 32-bit word read as a C `int`. -/
def toInt32 (w : ℕ) : ℤ := if w < 2 ^ 31 then w else (w : ℤ) - 2 ^ 32

lemma toInt32_of_lt {w : ℕ} (h : w < 2 ^ 31) : toInt32 w = w := if_pos h

end Xv6
