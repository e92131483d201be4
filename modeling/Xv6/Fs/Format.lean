import Xv6.Basic

/-!
# The on-disk format

`kernel/fs.h`: the layout of the disk, on-disk inodes, the free bit map and directory entries, as
views of the bytes of a block. The file system runs on one device, so device numbers are left out.
-/

namespace Xv6

/-! ### Bits and half words of a block -/

variable {i : ℕ}

namespace Block

/-- The `i`-th `ushort` of a block. -/
def half (blk : Block) (i : ℕ) : ℕ := (blk.byte (2 * i)).toNat + 256 * (blk.byte (2 * i + 1)).toNat

/-- `1 << (i % 8)`. -/
def mask (i : ℕ) : UInt8 := ⟨BitVec.twoPow 8 (i % 8)⟩

/-- `(data[i/8] & (1 << (i % 8))) != 0`. -/
def bit (blk : Block) (i : ℕ) : Bool := blk.byte (i / 8) &&& mask i != 0

/-- `data[i/8] |= 1 << (i % 8)`. -/
def setBit (blk : Block) (i : ℕ) : Block :=
  fun j => if j.val = i / 8 then blk j ||| mask i else blk j

/-- `data[i/8] &= ~(1 << (i % 8))`. -/
def clearBit (blk : Block) (i : ℕ) : Block :=
  fun j => if j.val = i / 8 then blk j &&& ~~~mask i else blk j

/-- Copy the bytes `f 0, ..., f (n - 1)` into a block, from its byte `o` on. -/
def patch (blk : Block) (o n : ℕ) (f : ℕ → UInt8) : Block :=
  fun j => if o ≤ j.val ∧ j.val < o + n then f (j.val - o) else blk j

@[simp]
lemma byte_zero (i : ℕ) : zero.byte i = 0 := by simp [byte, zero]

@[simp]
lemma word_zero (i : ℕ) : zero.word i = 0 := by simp [word]

@[simp]
lemma half_zero (i : ℕ) : zero.half i = 0 := by simp [half]

/-- No word reaches beyond the block. -/
lemma word_of_le (blk : Block) (hi : BSIZE / 4 ≤ i) : blk.word i = 0 := by
  have h : ∀ k, blk.byte (4 * i + k) = 0 := by
    intro k
    rw [byte, dif_neg]
    simp only [BSIZE] at hi ⊢
    omega
  have h0 := h 0
  rw [Nat.add_zero] at h0
  simp [word, h0, h]

lemma byte_patch (blk : Block) {o n : ℕ} {f : ℕ → UInt8} (hn : o + n ≤ BSIZE) :
    (blk.patch o n f).byte i = if o ≤ i ∧ i < o + n then f (i - o) else blk.byte i := by
  by_cases hi : i < BSIZE
  · simp only [byte, dif_pos hi, patch]
  · rw [if_neg (by omega)]
    simp only [byte, dif_neg hi]

lemma bit_eq_getLsbD (blk : Block) (i : ℕ) :
    blk.bit i = (blk.byte (i / 8)).toBitVec.getLsbD (i % 8) := by
  have hlt : i % 8 < 8 := Nat.mod_lt _ (by decide)
  have hne : BitVec.twoPow 8 (i % 8) ≠ 0#8 := by
    intro h
    have := congrArg BitVec.toNat h
    simp [BitVec.toNat_twoPow_of_lt hlt] at this
  have hand : (blk.byte (i / 8) &&& mask i).toBitVec
      = if (blk.byte (i / 8)).toBitVec.getLsbD (i % 8) then BitVec.twoPow 8 (i % 8) else 0#8 :=
    BitVec.and_twoPow _ _
  rw [bit, Bool.eq_iff_iff, bne_iff_ne, ne_eq, ← UInt8.toBitVec_inj, hand]
  cases (blk.byte (i / 8)).toBitVec.getLsbD (i % 8)
  · simp
  · simpa using hne

lemma byte_setBit (blk : Block) (hi : i / 8 < BSIZE) (j : ℕ) :
    (blk.setBit i).byte j = if j = i / 8 then blk.byte j ||| mask i else blk.byte j := by
  by_cases hj : j < BSIZE
  · simp only [byte, dif_pos hj, setBit]
  · rw [if_neg (by omega)]
    simp only [byte, dif_neg hj]

lemma byte_clearBit (blk : Block) (hi : i / 8 < BSIZE) (j : ℕ) :
    (blk.clearBit i).byte j = if j = i / 8 then blk.byte j &&& ~~~mask i else blk.byte j := by
  by_cases hj : j < BSIZE
  · simp only [byte, dif_pos hj, clearBit]
  · rw [if_neg (by omega)]
    simp only [byte, dif_neg hj]

lemma getLsbD_mask (i k : ℕ) : (mask i).toBitVec.getLsbD k = decide (k = i % 8) := by
  have hlt : i % 8 < 8 := Nat.mod_lt _ (by decide)
  rw [mask, BitVec.getLsbD_twoPow]
  simp [hlt, eq_comm]

/-- Setting a bit sets no other. -/
lemma bit_setBit (blk : Block) (hi : i / 8 < BSIZE) (j : ℕ) :
    (blk.setBit i).bit j = (blk.bit j || decide (j = i)) := by
  rw [bit_eq_getLsbD, bit_eq_getLsbD, byte_setBit blk hi]
  by_cases hj : j / 8 = i / 8
  · rw [if_pos hj, UInt8.toBitVec_or, BitVec.getLsbD_or, getLsbD_mask]
    congr 1
    rw [decide_eq_decide]
    omega
  · have hne : j ≠ i := by rintro rfl; exact hj rfl
    simp [if_neg hj, hne]

/-- Clearing a bit clears no other. -/
lemma bit_clearBit (blk : Block) (hi : i / 8 < BSIZE) (j : ℕ) :
    (blk.clearBit i).bit j = (blk.bit j && decide (j ≠ i)) := by
  rw [bit_eq_getLsbD, bit_eq_getLsbD, byte_clearBit blk hi]
  by_cases hj : j / 8 = i / 8
  · have hlt : j % 8 < 8 := Nat.mod_lt _ (by decide)
    rw [if_pos hj, UInt8.toBitVec_and, BitVec.getLsbD_and, UInt8.toBitVec_not,
      BitVec.getLsbD_not, getLsbD_mask]
    congr 1
    rw [decide_eq_true hlt, Bool.true_and, ← decide_not, decide_eq_decide]
    omega
  · have hne : j ≠ i := by rintro rfl; exact hj rfl
    simp [if_neg hj, hne]

/-- Clearing a bit that was set takes the block back to what it was. -/
lemma clearBit_setBit (blk : Block) (hbit : blk.bit i = false) :
    (blk.setBit i).clearBit i = blk := by
  funext j
  rw [clearBit, setBit]
  split_ifs with hj
  · have hbyte : blk.byte (i / 8) = blk j := by rw [← hj, byte, dif_pos j.isLt]
    rw [bit_eq_getLsbD, hbyte] at hbit
    rw [← UInt8.toBitVec_inj, UInt8.toBitVec_and, UInt8.toBitVec_or, UInt8.toBitVec_not]
    apply BitVec.eq_of_getLsbD_eq
    intro k hk
    rw [BitVec.getLsbD_and, BitVec.getLsbD_or, BitVec.getLsbD_not, getLsbD_mask]
    by_cases hki : k = i % 8
    · simp [hki, hbit]
    · simp [hki, hk]
  · rfl

end Block

namespace Fs

/-! ### Constants -/

/-- Block addresses in an inode. -/
def NDIRECT : ℕ := 12

/-- Block addresses in an indirect block. -/
def NINDIRECT : ℕ := BSIZE / 4

/-- Maximum number of blocks of a file. -/
def MAXFILE : ℕ := NDIRECT + NINDIRECT

/-- Inodes per block. -/
def IPB : ℕ := BSIZE / 64

/-- Bitmap bits per block. -/
def BPB : ℕ := BSIZE * 8

/-- Bytes of a name in a directory entry. -/
def DIRSIZ : ℕ := 14

/-- Maximum number of active inodes. -/
def NINODE : ℕ := 50

/-- Root i-number. -/
def ROOTINO : ℕ := 1

def T_DIR : Int16 := 1
def T_FILE : Int16 := 2
def T_DEVICE : Int16 := 3

/-! ### The layout of the disk -/

/-- The fields of the super block that the kernel uses. -/
structure Superblock where
  /-- Size of the file system image in blocks. -/
  size : ℕ
  /-- Number of data blocks. -/
  nblocks : ℕ
  ninodes : ℕ
  nlog : ℕ
  /-- First inode block. -/
  inodestart : ℕ
  /-- First free map block. -/
  bmapstart : ℕ
  deriving DecidableEq

namespace Superblock

/-- The block that holds inode `i`. -/
def IBLOCK (sb : Superblock) (i : ℕ) : ℕ := i / IPB + sb.inodestart

/-- The block of the free map that holds the bit of block `b`. -/
def BBLOCK (sb : Superblock) (b : ℕ) : ℕ := b / BPB + sb.bmapstart

/-- The blocks before the data blocks. -/
def nmeta (sb : Superblock) : ℕ := sb.size - sb.nblocks

end Superblock

/-- A super block whose areas lie on the disk in the order
`[ boot block | super block | log | inode blocks | free bit map | data blocks ]`. -/
structure Layout extends Superblock where
  inodestart_pos : 0 < inodestart
  ninodes_pos : 0 < ninodes
  inodes_lt : (ninodes - 1) / IPB + inodestart < bmapstart
  bitmap_lt : (size - 1) / BPB + bmapstart < size - nblocks
  /-- `balloc` counts blocks in an `int`. -/
  size_lt : size < 2 ^ 31

namespace Layout

variable (L : Layout) {n b : ℕ}

lemma IBLOCK_lt (hn : n < L.ninodes) : L.IBLOCK n < L.bmapstart := by
  have hle : n / IPB ≤ (L.ninodes - 1) / IPB := Nat.div_le_div_right (by omega)
  have := L.inodes_lt
  simp only [Superblock.IBLOCK]
  omega

lemma BBLOCK_lt (hb : b < L.size) : L.BBLOCK b < L.nmeta := by
  have hle : b / BPB ≤ (L.size - 1) / BPB := Nat.div_le_div_right (by omega)
  have := L.bitmap_lt
  simp only [Superblock.BBLOCK, Superblock.nmeta]
  omega

lemma le_BBLOCK : L.bmapstart ≤ L.BBLOCK b := Nat.le_add_left _ _

lemma bmapstart_lt : L.bmapstart < L.nmeta := (Nat.le_add_left _ _).trans_lt L.bitmap_lt

lemma nmeta_pos : 0 < L.nmeta := by
  have := L.bmapstart_lt
  omega

lemma IBLOCK_ne_BBLOCK (hn : n < L.ninodes) : L.IBLOCK n ≠ L.BBLOCK b := by
  have := L.IBLOCK_lt hn
  have := L.le_BBLOCK (b := b)
  omega

/-- Inode blocks are not data blocks. -/
lemma IBLOCK_ne (hn : n < L.ninodes) (hb : L.nmeta ≤ b) : L.IBLOCK n ≠ b := by
  have := L.IBLOCK_lt hn
  have := L.bmapstart_lt
  omega

/-- Two blocks whose bits are in one block of the free map have different bits there. -/
lemma mod_BPB_inj {x : ℕ} (h : L.BBLOCK x = L.BBLOCK b) : x % BPB = b % BPB ↔ x = b := by
  have hdiv : x / BPB = b / BPB := Nat.add_right_cancel h
  constructor
  · intro hmod
    rw [← Nat.div_add_mod x BPB, ← Nat.div_add_mod b BPB, hdiv, hmod]
  · rintro rfl
    rfl

/-- Bitmap blocks are not data blocks. -/
lemma BBLOCK_ne {b' : ℕ} (hb' : b' < L.size) (hb : L.nmeta ≤ b) : L.BBLOCK b' ≠ b := by
  have := L.BBLOCK_lt hb'
  omega

end Layout

/-- The number of inodes that `mkfs` makes. -/
def NINODES : ℕ := 200

/-- The layout that `mkfs` makes: two blocks before the log, `LOGSIZE` blocks for the log,
`NINODES / IPB + 1` blocks of inodes and `FSSIZE / BPB + 1` blocks of the free map. -/
def Layout.mkfs : Layout where
  size := FSSIZE
  nblocks := FSSIZE - (2 + LOGSIZE + (NINODES / IPB + 1) + (FSSIZE / BPB + 1))
  ninodes := NINODES
  nlog := LOGSIZE
  inodestart := 2 + LOGSIZE
  bmapstart := 2 + LOGSIZE + (NINODES / IPB + 1)
  inodestart_pos := by decide
  ninodes_pos := by decide
  inodes_lt := by decide
  bitmap_lt := by decide
  size_lt := by decide

/-! ### On-disk inodes -/

/-- On-disk inode structure. -/
structure Dinode where
  /-- File type, 0 when the inode is free. -/
  type : Int16
  major : Int16
  minor : Int16
  nlink : Int16
  /-- Size of the file in bytes. -/
  size : UInt32
  /-- Data block addresses, the last one of the indirect block. -/
  addrs : Fin (NDIRECT + 1) → UInt32

namespace Dinode

/-- An inode of zero bytes. -/
def zero : Dinode where
  type := 0
  major := 0
  minor := 0
  nlink := 0
  size := 0
  addrs := fun _ => 0

/-- `addrs[i]`. -/
def addr (d : Dinode) (i : ℕ) : ℕ := if h : i < NDIRECT + 1 then (d.addrs ⟨i, h⟩).toNat else 0

/-- `addrs[i] = b`. -/
def setAddr (d : Dinode) (i b : ℕ) : Dinode :=
  { d with addrs := fun j => if j.val = i then UInt32.ofNat b else d.addrs j }

/-- The inode without blocks and content. -/
def clear (d : Dinode) : Dinode := { d with size := 0, addrs := fun _ => 0 }

/-- The `k`-th of the 64 bytes of an inode. -/
def byte (d : Dinode) (k : ℕ) : UInt8 :=
  if k < 8 then
    let short := if k < 2 then d.type else if k < 4 then d.major else if k < 6 then d.minor
      else d.nlink
    UInt8.ofNat (short.toUInt16.toNat / 256 ^ (k % 2))
  else if k < 12 then UInt8.ofNat (d.size.toNat / 256 ^ (k % 4))
  else UInt8.ofNat (d.addr ((k - 12) / 4) / 256 ^ (k % 4))

lemma addr_setAddr_self (d : Dinode) {b : ℕ} (hi : i ≤ NDIRECT) (hb : b < 2 ^ 32) :
    (d.setAddr i b).addr i = b := by
  have h : i < NDIRECT + 1 := Nat.lt_succ_of_le hi
  rw [addr, dif_pos h]
  simp only [setAddr, if_true]
  exact UInt32.toNat_ofNat_of_lt' hb

lemma addr_setAddr_of_ne (d : Dinode) {j : ℕ} (b : ℕ) (hj : j ≠ i) :
    (d.setAddr i b).addr j = d.addr j := by
  simp only [addr, setAddr, if_neg hj]

@[simp]
lemma addr_zero (i : ℕ) : zero.addr i = 0 := by
  simp [addr, zero]

@[simp]
lemma addr_clear (d : Dinode) (i : ℕ) : d.clear.addr i = 0 := by
  simp [addr, clear]

end Dinode

end Fs

/-! ### Inodes in their blocks -/

namespace Block

open Fs

/-- The `short` with the given bits. -/
def short (h : ℕ) : Int16 := (UInt16.ofNat h).toInt16

/-- `((struct dinode*)data)[k]`. -/
def dinode (blk : Block) (k : ℕ) : Dinode where
  type := short (blk.half (32 * k))
  major := short (blk.half (32 * k + 1))
  minor := short (blk.half (32 * k + 2))
  nlink := short (blk.half (32 * k + 3))
  size := UInt32.ofNat (blk.word (16 * k + 2))
  addrs := fun i => UInt32.ofNat (blk.word (16 * k + 3 + i))

/-- Assign all the fields of `((struct dinode*)data)[k]`. -/
def setDinode (blk : Block) (k : ℕ) (d : Dinode) : Block :=
  fun j => if j.val / 64 = k then d.byte (j.val % 64) else blk j

variable {k : ℕ}

lemma byte_setDinode_of_ne (blk : Block) {j : ℕ} (d : Dinode) (hj : j / 64 ≠ k) :
    (blk.setDinode k d).byte j = blk.byte j := by
  simp only [byte, setDinode, if_neg hj]

lemma byte_setDinode_self (blk : Block) (d : Dinode) (hk : k < IPB) (hi : i < 64) :
    (blk.setDinode k d).byte (64 * k + i) = d.byte i := by
  have hlt : 64 * k + i < BSIZE := by simp only [IPB, BSIZE] at hk ⊢; omega
  have hdiv : (64 * k + i) / 64 = k := by omega
  have hmod : (64 * k + i) % 64 = i := by omega
  rw [byte, dif_pos hlt]
  simp only [setDinode, hdiv, hmod, if_true]

/-- A `short` is read back from its two bytes. -/
lemma short_bytes (x : Int16) :
    short ((UInt8.ofNat (x.toUInt16.toNat / 256 ^ 0)).toNat
      + 256 * (UInt8.ofNat (x.toUInt16.toNat / 256 ^ 1)).toNat) = x := by
  have hx : x.toUInt16.toNat < 2 ^ 16 := UInt16.toNat_lt _
  have hval : (UInt8.ofNat (x.toUInt16.toNat / 256 ^ 0)).toNat
      + 256 * (UInt8.ofNat (x.toUInt16.toNat / 256 ^ 1)).toNat = x.toUInt16.toNat := by
    simp only [UInt8.toNat_ofNat']
    omega
  rw [hval, short, UInt16.ofNat_toNat]
  rfl

/-- A `uint` is read back from its four bytes. -/
lemma word_eq_of_bytes {blk : Block} {w : ℕ} (hw : w < 2 ^ 32)
    (h : ∀ k < 4, blk.byte (4 * i + k) = UInt8.ofNat (w / 256 ^ k)) : blk.word i = w := by
  have h0 := h 0 (by decide)
  rw [Nat.add_zero] at h0
  rw [word, h0, h 1 (by decide), h 2 (by decide), h 3 (by decide)]
  simp only [UInt8.toNat_ofNat']
  norm_num
  omega

/-- What is assigned to an inode is read back. -/
lemma dinode_setDinode_self (blk : Block) (d : Dinode) (hk : k < IPB) :
    (blk.setDinode k d).dinode k = d := by
  have hhalf : ∀ (i : ℕ) (x : Int16), i < 4 →
    d.byte (2 * i) = UInt8.ofNat (x.toUInt16.toNat / 256 ^ 0)
      → d.byte (2 * i + 1) = UInt8.ofNat (x.toUInt16.toNat / 256 ^ 1)
      → short ((blk.setDinode k d).half (32 * k + i)) = x := by
    intro i x hi h0 h1
    have hpos : 2 * (32 * k + i) = 64 * k + 2 * i := by ring
    rw [half, hpos, byte_setDinode_self blk d hk (by omega), Nat.add_assoc,
      byte_setDinode_self blk d hk (by omega), h0, h1]
    exact short_bytes x
  have hword : ∀ (i w : ℕ), i < 16 → w < 2 ^ 32
      → (∀ t < 4, d.byte (4 * i + t) = UInt8.ofNat (w / 256 ^ t))
      → (blk.setDinode k d).word (16 * k + i) = w := by
    intro i w hi hw h
    apply word_eq_of_bytes hw
    intro t ht
    have hpos : 4 * (16 * k + i) + t = 64 * k + (4 * i + t) := by ring
    rw [hpos, byte_setDinode_self blk d hk (by omega), h t ht]
  have hsize : (blk.setDinode k d).word (16 * k + 2) = d.size.toNat := by
    apply hword 2 d.size.toNat (by decide) (UInt32.toNat_lt _)
    intro t ht
    have hmod : (4 * 2 + t) % 4 = t := by omega
    rw [Dinode.byte, if_neg (by omega), if_pos (by omega), hmod]
  have haddr : ∀ i : Fin (NDIRECT + 1),
      (blk.setDinode k d).word (16 * k + (3 + i.val)) = (d.addrs i).toNat := by
    intro i
    have hi : i.val < 13 := i.isLt
    apply hword (3 + i) _ (by omega) (UInt32.toNat_lt _)
    intro t ht
    have hmod : (4 * (3 + i.val) + t) % 4 = t := by omega
    have hdiv : (4 * (3 + i.val) + t - 12) / 4 = i.val := by omega
    rw [Dinode.byte, if_neg (by omega), if_neg (by omega), hmod, hdiv, Dinode.addr,
      dif_pos i.isLt]
  cases d with
  | mk type major minor nlink size addrs =>
    simp only [dinode, Dinode.mk.injEq]
    refine ⟨hhalf 0 type (by decide) rfl rfl, hhalf 1 major (by decide) rfl rfl,
      hhalf 2 minor (by decide) rfl rfl, hhalf 3 nlink (by decide) rfl rfl, ?_, ?_⟩
    · rw [hsize, UInt32.ofNat_toNat]
    · funext i
      rw [Nat.add_assoc, haddr i, UInt32.ofNat_toNat]

/-- Assigning to an inode changes no other inode of the block. -/
lemma dinode_setDinode_of_ne (blk : Block) {l : ℕ} (d : Dinode) (hl : l ≠ k) :
    (blk.setDinode k d).dinode l = blk.dinode l := by
  have hbyte : ∀ j, j / 64 = l → (blk.setDinode k d).byte j = blk.byte j := by
    intro j hj
    apply byte_setDinode_of_ne
    omega
  have hhalf : ∀ i < 4, (blk.setDinode k d).half (32 * l + i) = blk.half (32 * l + i) := by
    intro i hi
    rw [half, half, hbyte _ (by omega), hbyte _ (by omega)]
  have hword : ∀ i < 16, (blk.setDinode k d).word (16 * l + i) = blk.word (16 * l + i) := by
    intro i hi
    rw [word, word, hbyte _ (by omega), hbyte _ (by omega), hbyte _ (by omega),
      hbyte _ (by omega)]
  have haddr : ∀ i : Fin (NDIRECT + 1), 3 + i.val < 16 := fun i => by
    have : i.val < 13 := i.isLt
    omega
  have h0 := hhalf 0 (by decide)
  rw [Nat.add_zero] at h0
  simp only [dinode, h0, hhalf 1 (by decide), hhalf 2 (by decide), hhalf 3 (by decide),
    hword 2 (by decide), Nat.add_assoc, hword _ (haddr _)]

@[simp]
lemma dinode_zero (k : ℕ) : zero.dinode k = Dinode.zero := by
  simp [dinode, Dinode.zero, short]

end Block

end Xv6
