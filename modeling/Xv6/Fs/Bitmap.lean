import Xv6.Fs.Blocks

/-!
# The free bit map in machine integers

`balloc` counts blocks in `int` variables, compares them with the `uint` size of the disk and takes
a block number apart by its loops; `bfree` does it by division of a `uint`. Here both are written
with the integers of the source. For a disk of less than `2 ^ 31` blocks they find the same bits,
and they do what the functions on natural numbers do.
-/

namespace Xv6.Fs.Word

open Core Coroutine

/-! ### The functions -/

section

variable (sb : Superblock)

/-- `BBLOCK(b, sb)` for a `uint`; `BPB` is 8192. -/
def bblock (b : UInt32) : ℕ := (b / 8192 + UInt32.ofNat sb.bmapstart).toNat

/-- The inner loop of `balloc`, from `bi` on: the first clear bit. It ends after at most `BPB`
rounds, as `bi` is `BPB` then. -/
def findClear (blk : Block) (b : Int32) : ℕ → Int32 → Option Int32
  | 0, _ => none
  | n + 1, bi =>
    if bi < 8192 ∧ (b + bi).toUInt32 < UInt32.ofNat sb.size then
      if blk.bit bi.toInt.toNat = false then some bi else findClear blk b n (bi + 1)
    else
      none

/-- The outer loop of `balloc`, from `b` on. It ends after at most `2 ^ 18` rounds, as the bits of
`b` are those of `2 ^ 31` then. -/
def ballocFrom : ℕ → Int32 → FsM UInt32
  | 0, _ => panic .outOfBlocks
  | n + 1, b =>
    if b.toUInt32 < UInt32.ofNat sb.size then do
      let bno := ((b / 8192).toUInt32 + UInt32.ofNat sb.bmapstart).toNat
      let blk ← bread bno
      match findClear sb blk b BPB 0 with
      | some bi =>
        setData bno (·.setBit bi.toInt.toNat)
        logWrite sb bno
        brelse bno
        bzero sb (b + bi).toUInt32.toNat
        return (b + bi).toUInt32
      | none =>
        brelse bno
        ballocFrom n (b + 8192)
    else
      panic .outOfBlocks

/-- Allocate a zeroed disk block. -/
def balloc : FsM UInt32 := ballocFrom sb (2 ^ 18) 0

/-- Free a disk block. -/
def bfree (b : UInt32) : FsM PUnit := do
  let blk ← bread (bblock sb b)
  let bi := (b % 8192).toInt32
  if blk.bit bi.toInt.toNat = false then
    panic .freeingFreeBlock
  else
    setData (bblock sb b) (·.clearBit bi.toInt.toNat)
    logWrite sb (bblock sb b)
    brelse (bblock sb b)

/-- The bit of block `b` in the free map. -/
def marked (disk : ℕ → Block) (b : UInt32) : Bool := (disk (bblock sb b)).bit (b % 8192).toNat

end

variable {sb : Superblock} {s : State} {disk : ℕ → Block} {blk : Block} {B k n i : ℕ}
  {b x : UInt32}

/-! ### The loops -/

lemma toUInt32_add (a c : ℕ) : (Int32.ofNat a + Int32.ofNat c).toUInt32 = UInt32.ofNat (a + c) := by
  rw [← Int32.ofNat_add, Int32.toUInt32_ofNat']

variable {c : ℕ}

lemma ofNat_lt_iff {a : ℕ} (ha : a < 2 ^ 32) (hc : c < 2 ^ 32) :
    UInt32.ofNat a < UInt32.ofNat c ↔ a < c :=
  UInt32.ofNat_lt_iff_lt ha hc

lemma toNat_toInt {a : ℕ} (ha : a < 2 ^ 31) : (Int32.ofNat a).toInt.toNat = a := by
  rw [Int32.toInt_ofNat_of_lt ha, Int.toNat_natCast]

/-- The inner loop looks at the bits one by one. -/
lemma findClear_eq_find (hsize : sb.size < 2 ^ 31) (hB : B < 2 ^ 31) (hn : i + n = 8192) :
    findClear sb blk (Int32.ofNat B) n (Int32.ofNat i)
      = ((List.range' i n).find? fun bi => B + bi < sb.size && !blk.bit bi).map Int32.ofNat := by
  induction n generalizing i with
  | zero => rfl
  | succ n ih =>
    have hi : i < 8192 := by omega
    have hlt : Int32.ofNat i < 8192 :=
      (Int32.ofNat_lt_iff_lt (hi.trans (by norm_num)) (by norm_num)).mpr hi
    have hend : UInt32.ofNat (B + i) < UInt32.ofNat sb.size ↔ B + i < sb.size :=
      ofNat_lt_iff (by omega) (by omega)
    rw [findClear, toUInt32_add, toNat_toInt (by omega), List.range'_succ, List.find?_cons]
    by_cases hin : B + i < sb.size
    · rw [if_pos ⟨hlt, hend.mpr hin⟩]
      cases hbit : blk.bit i with
      | false => simp [hin]
      | true =>
        have hnext : Int32.ofNat i + 1 = Int32.ofNat (i + 1) := (Int32.ofNat_add i 1).symm
        rw [if_neg (by decide), hnext, ih (by omega)]
        simp
    · rw [if_neg fun h => hin (hend.mp h.2)]
      have hnone : (List.range' (i + 1) n).find? (fun bi => B + bi < sb.size && !blk.bit bi)
          = none := by
        rw [List.find?_eq_none]
        intro j hj
        rw [List.mem_range'_1] at hj
        have hout : ¬B + j < sb.size := by omega
        simp [hout]
      simp [hin, hnone]

lemma findClear_eq (hsize : sb.size < 2 ^ 31) (hB : B < 2 ^ 31) :
    findClear sb blk (Int32.ofNat B) BPB 0 = (freeBit sb blk B).map Int32.ofNat := by
  have hzero : (0 : Int32) = Int32.ofNat 0 := rfl
  have hBPB : 0 + BPB = 8192 := by decide
  unfold freeBit
  rw [hzero, findClear_eq_find hsize hB hBPB, List.range_eq_range']

lemma ofNat_div {a : ℕ} (ha : a < 2 ^ 32) : UInt32.ofNat a / 8192 = UInt32.ofNat (a / 8192) :=
  (UInt32.ofNat_div ha (by decide)).symm

lemma toNat_mod (b : UInt32) : (b % 8192).toNat = b.toNat % 8192 := UInt32.toNat_mod b 8192

/-- The block of the free map in which the outer loop looks in its round `k`. -/
lemma bblock_eq (hk : k < 2 ^ 18) : ((Int32.ofNat (8192 * k) / 8192).toUInt32
      + UInt32.ofNat sb.bmapstart).toNat = bblock sb (UInt32.ofNat (8192 * k)) := by
  have hint : Int32.ofNat (8192 * k) / 8192 = Int32.ofNat k := by
    have hdiv := Int32.ofNat_div (a := 8192 * k) (b := 8192) (by omega) (by norm_num)
    rw [Nat.mul_div_cancel_left _ (by norm_num)] at hdiv
    exact hdiv.symm
  rw [hint, Int32.toUInt32_ofNat', bblock, ofNat_div (by omega),
    Nat.mul_div_cancel_left _ (by norm_num)]

/-- One round of the outer loop, in natural numbers. -/
lemma ballocFrom_succ (hsize : sb.size < 2 ^ 31) (hk : k < 2 ^ 18) :
    ballocFrom sb (n + 1) (Int32.ofNat (8192 * k)) =
      if 8192 * k < sb.size then do
        let bno := bblock sb (UInt32.ofNat (8192 * k))
        let blk ← bread bno
        match freeBit sb blk (8192 * k) with
        | some bi =>
          setData bno (·.setBit bi)
          logWrite sb bno
          brelse bno
          bzero sb (8192 * k + bi)
          return UInt32.ofNat (8192 * k + bi)
        | none =>
          brelse bno
          ballocFrom sb n (Int32.ofNat (8192 * (k + 1)))
      else
        panic .outOfBlocks := by
  have hin : UInt32.ofNat (8192 * k) < UInt32.ofNat sb.size ↔ 8192 * k < sb.size :=
    ofNat_lt_iff (by omega) (by omega)
  rw [ballocFrom, Int32.toUInt32_ofNat', bblock_eq hk]
  refine if_congr hin ?_ rfl
  dsimp only
  congr 1
  funext blk
  rw [findClear_eq hsize (by omega)]
  cases hbi : freeBit sb blk (8192 * k) with
  | none =>
    have hnext : Int32.ofNat (8192 * k) + 8192 = Int32.ofNat (8192 * (k + 1)) := by
      rw [Nat.mul_add, Int32.ofNat_add]
      rfl
    rw [Option.map_none]
    dsimp only
    rw [hnext]
  | some bi =>
    obtain ⟨hlt, hend, -⟩ := freeBit_eq_some hbi
    have hout : (UInt32.ofNat (8192 * k + bi)).toNat = 8192 * k + bi :=
      UInt32.toNat_ofNat_of_lt (show _ < 2 ^ 32 by omega)
    rw [Option.map_some]
    dsimp only
    rw [toUInt32_add, toNat_toInt (by omega), hout]

/-- The bits of a block of the free map. -/
lemma marked_ofNat (hk : k < 2 ^ 18) (hi : i < 8192) :
    marked sb disk (UInt32.ofNat (8192 * k + i))
      = (disk (bblock sb (UInt32.ofNat (8192 * k)))).bit i := by
  have hdiv : (8192 * k + i) / 8192 = 8192 * k / 8192 := by omega
  have hnat : (UInt32.ofNat (8192 * k + i)).toNat = 8192 * k + i :=
    UInt32.toNat_ofNat_of_lt (show _ < 2 ^ 32 by omega)
  have hmod : (8192 * k + i) % 8192 = i := by omega
  rw [marked, bblock, bblock, ofNat_div (by omega), ofNat_div (by omega), hdiv, toNat_mod, hnat,
    hmod]

/-! ### Runs -/

/-- A log of `n` blocks takes no more. -/
def Full (sb : Superblock) (n : ℕ) : Prop := LOGSIZE ≤ n ∨ sb.nlog - 1 ≤ n

lemma Full.mono {m : ℕ} (h : Full sb m) (hm : m ≤ n) : Full sb n :=
  h.imp (fun h => h.trans hm) fun h => h.trans hm

/-- A call that starts with `n` blocks in the log fails only because the log is full. -/
def LogFull (sb : Superblock) (n : ℕ) (e : Halt) : Prop :=
  e = .panic .tooBigTransaction ∧ Full sb n

lemma wp_logWrite {F : Halt → Prop} {R : PUnit → State → Prop}
    (hF : Full sb s.lh.length → F (.panic .tooBigTransaction))
    (hR : ∀ lh, lh.length ≤ s.lh.length + 1 → R ⟨⟩ { s with lh := lh }) :
    wp F (logWrite sb c) R s := by
  simp only [logWrite, wp_bind, wp_pause, wp_get]
  apply wp_ite
  · exact hF
  · intro _
    apply hR
    split_ifs
    · exact Nat.le_succ _
    · exact (List.length_append ..).le

/-- Set the bit of block `b`. -/
def mark (sb : Superblock) (disk : ℕ → Block) (b : UInt32) : ℕ → Block :=
  Function.update disk (bblock sb b) ((disk (bblock sb b)).setBit (b % 8192).toNat)

/-- Clear the bit of block `b`. -/
def unmark (sb : Superblock) (disk : ℕ → Block) (b : UInt32) : ℕ → Block :=
  Function.update disk (bblock sb b) ((disk (bblock sb b)).clearBit (b % 8192).toNat)

/-- Block `b` is taken into use, and zeroed. -/
def allocated (sb : Superblock) (disk : ℕ → Block) (b : UInt32) : ℕ → Block :=
  Function.update (mark sb disk b) b.toNat Block.zero

lemma freeBit_of_least (hc : c < sb.size) (hclear : blk.bit (c % 8192) = false)
    (hleast : ∀ i < c % 8192, blk.bit i = true) :
    freeBit sb blk (8192 * (c / 8192)) = some (c % 8192) := by
  have hBPB : BPB = 8192 := by decide
  unfold freeBit
  rw [List.find?_range_eq_some, hBPB, List.mem_range, Nat.div_add_mod]
  refine ⟨by simp [hc, hclear], Nat.mod_lt _ (by norm_num), fun i hi => ?_⟩
  simp [hleast i hi]

lemma freeBit_of_marked (hmarked : ∀ i < 8192, blk.bit i = true) : freeBit sb blk c = none := by
  have hBPB : BPB = 8192 := by decide
  unfold freeBit
  rw [List.find?_eq_none]
  intro i hi
  rw [List.mem_range, hBPB] at hi
  simp [hmarked i hi]

/-- The outer loop comes to the least block that is not marked. -/
lemma wp_ballocFrom (hsize : sb.size < 2 ^ 31) (hc : c < sb.size)
    (hclear : marked sb s.disk (UInt32.ofNat c) = false)
    (hleast : ∀ x < c, marked sb s.disk (UInt32.ofNat x) = true) (hk : k ≤ c / 8192)
    (hn : c / 8192 < k + n) :
    wp (LogFull sb (s.lh.length + 1)) (ballocFrom sb n (Int32.ofNat (8192 * k)))
      (fun r s' => r = UInt32.ofNat c ∧ s'.disk = allocated sb s.disk (UInt32.ofNat c)) s := by
  induction n generalizing k with
  | zero => omega
  | succ n ih =>
    have hk' : k < 2 ^ 18 := by omega
    rw [ballocFrom_succ hsize hk', if_pos (by omega)]
    simp only [wp_bind, wp_bread]
    rcases hk.lt_or_eq with hlt | rfl
    · have hnone : freeBit sb (s.disk (bblock sb (UInt32.ofNat (8192 * k)))) (8192 * k) = none := by
        refine freeBit_of_marked fun i hi => ?_
        rw [← marked_ofNat hk' hi]
        exact hleast _ (by omega)
      rw [hnone]
      simp only [wp_bind, wp_brelse]
      exact ih (by omega) (by omega)
    · have hi : c % 8192 < 8192 := Nat.mod_lt _ (by norm_num)
      have hsum : 8192 * (c / 8192) + c % 8192 = c := Nat.div_add_mod c 8192
      have hsome : freeBit sb (s.disk (bblock sb (UInt32.ofNat (8192 * (c / 8192)))))
          (8192 * (c / 8192)) = some (c % 8192) := by
        refine freeBit_of_least hc ?_ fun i hlt => ?_
        · rw [← marked_ofNat hk' hi, hsum, hclear]
        · rw [← marked_ofNat hk' (hlt.trans hi)]
          exact hleast _ (by omega)
      rw [hsome]
      simp only [wp_bind, wp_setData]
      apply wp_logWrite (s := s.setData _ _) (fun hfull => ⟨rfl, hfull.mono (Nat.le_succ _)⟩)
      intro lh hlh
      simp only [bzero, wp_bind, wp_brelse, wp_bread, wp_setData]
      apply wp_logWrite (fun hfull => ⟨rfl, hfull.mono hlh⟩)
      intro lh' _
      have hnat : (UInt32.ofNat c).toNat = c := UInt32.toNat_ofNat_of_lt (show _ < 2 ^ 32 by omega)
      have hblock : bblock sb (UInt32.ofNat (8192 * (c / 8192))) = bblock sb (UInt32.ofNat c) := by
        rw [bblock, bblock, ofNat_div (by omega), ofNat_div (by omega),
          Nat.mul_div_cancel_left _ (by norm_num)]
      simp only [wp_brelse, wp_pure, hsum]
      refine ⟨trivial, ?_⟩
      rw [allocated, mark, toNat_mod, hnat, hblock]
      rfl

/-- `balloc` on a disk whose least block that is not marked is `b`. -/
lemma wp_balloc (hsize : sb.size < 2 ^ 31) (hb : b.toNat < sb.size)
    (hclear : marked sb s.disk b = false) (hleast : ∀ x < b, marked sb s.disk x = true) :
    wp (LogFull sb (s.lh.length + 1)) (balloc sb)
      (fun r s' => r = b ∧ s'.disk = allocated sb s.disk b) s := by
  obtain ⟨c, hc⟩ : ∃ c, c = b.toNat := ⟨_, rfl⟩
  obtain rfl : b = UInt32.ofNat c := by rw [hc, UInt32.ofNat_toNat]
  rw [← hc] at hb
  refine wp_ballocFrom (k := 0) hsize hb hclear (fun x hx => hleast _ ?_) (Nat.zero_le _) (by omega)
  exact (ofNat_lt_iff (by omega) (by omega)).mpr hx

lemma toNat_toInt32_mod (b : UInt32) : (b % 8192).toInt32.toInt.toNat = (b % 8192).toNat := by
  have hlt : (b % 8192).toNat < 8192 := by
    rw [toNat_mod]
    exact Nat.mod_lt _ (by norm_num)
  have hofNat : b % 8192 = UInt32.ofNat (b % 8192).toNat := by rw [UInt32.ofNat_toNat]
  rw [hofNat, UInt32.toInt32_ofNat', ← hofNat, toNat_toInt (by omega)]

lemma wp_bfree (hmarked : marked sb s.disk b = true) :
    wp (LogFull sb s.lh.length) (bfree sb b) (fun _ s' => s'.disk = unmark sb s.disk b) s := by
  simp only [bfree, wp_bind, wp_bread, toNat_toInt32_mod]
  rw [marked] at hmarked
  rw [if_neg (by rw [hmarked]; decide)]
  simp only [wp_bind, wp_setData]
  apply wp_logWrite (s := s.setData _ _) (fun hfull => ⟨rfl, hfull⟩)
  intro lh _
  rfl

/-! ### The bits -/

lemma bblock_eq_iff : bblock sb x = bblock sb b ↔ x / 8192 = b / 8192 := by
  rw [bblock, bblock, UInt32.toNat_inj, UInt32.add_left_inj]

/-- A block number is its block of the free map and its bit there. -/
lemma eq_iff (sb : Superblock) (x b : UInt32) :
    x = b ↔ bblock sb x = bblock sb b ∧ (x % 8192).toNat = (b % 8192).toNat := by
  constructor
  · rintro rfl
    exact ⟨rfl, rfl⟩
  · rintro ⟨hblock, hmod⟩
    rw [bblock_eq_iff, ← UInt32.toNat_inj, UInt32.toNat_div, UInt32.toNat_div] at hblock
    rw [toNat_mod, toNat_mod] at hmod
    rw [← UInt32.toNat_inj, ← Nat.div_add_mod x.toNat 8192, ← Nat.div_add_mod b.toNat 8192, hmod]
    exact congrArg (fun q => 8192 * q + b.toNat % 8192) hblock

lemma bit_index_lt : (b % 8192).toNat / 8 < BSIZE := by
  have hBSIZE : BSIZE = 1024 := by decide
  rw [toNat_mod, hBSIZE]
  omega

lemma marked_update_of_ne (hx : bblock sb x ≠ c) :
    marked sb (Function.update disk c blk) x = marked sb disk x := by
  rw [marked, Function.update_of_ne hx, marked]

lemma marked_mark : marked sb (mark sb disk b) x = (marked sb disk x || decide (x = b)) := by
  rw [mark]
  by_cases hblock : bblock sb x = bblock sb b
  · rw [marked, hblock, Function.update_self, Block.bit_setBit _ bit_index_lt, marked, hblock]
    simp [eq_iff sb x b, hblock]
  · rw [marked_update_of_ne hblock]
    simp [eq_iff sb x b, hblock]

lemma marked_unmark : marked sb (unmark sb disk b) x = (marked sb disk x && decide (x ≠ b)) := by
  rw [unmark]
  by_cases hblock : bblock sb x = bblock sb b
  · rw [marked, hblock, Function.update_self, Block.bit_clearBit _ bit_index_lt, marked, hblock]
    simp [eq_iff sb x b, hblock]
  · rw [marked_update_of_ne hblock]
    simp [eq_iff sb x b, hblock]

/-- What `balloc` leaves of the free map. -/
lemma marked_allocated : marked sb (allocated sb disk b) x
    = if bblock sb x = b.toNat then false else marked sb disk x || decide (x = b) := by
  rw [allocated]
  split_ifs with hx
  · rw [marked, hx, Function.update_self, Block.bit_eq_getLsbD, Block.byte_zero]
    simp
  · rw [marked_update_of_ne hx, marked_mark]

/-- Giving back the block that was allocated last, if it is not a block of the free map. -/
lemma unmark_allocated (hclear : marked sb disk b = false) (hb : bblock sb b ≠ b.toNat)
    (hx : bblock sb x ≠ b.toNat) :
    unmark sb (allocated sb disk b) b (bblock sb x) = disk (bblock sb x) := by
  rw [unmark]
  by_cases hblock : bblock sb x = bblock sb b
  · rw [hblock, Function.update_self, allocated, Function.update_of_ne hb, mark,
      Function.update_self, Block.clearBit_setBit _ hclear]
  · rw [Function.update_of_ne hblock, allocated, Function.update_of_ne hx, mark,
      Function.update_of_ne hblock]

/-- The least block on the disk that is not marked. -/
lemma exists_least (h : ∃ b : UInt32, b.toNat < sb.size ∧ marked sb disk b = false) :
    ∃ b : UInt32, b.toNat < sb.size ∧ marked sb disk b = false ∧
      ∀ x < b, marked sb disk x = true := by
  obtain ⟨b, ⟨hb, hclear⟩, hmin⟩ := (measure UInt32.toNat).wf.has_min
    {b | b.toNat < sb.size ∧ marked sb disk b = false} h
  refine ⟨b, hb, hclear, fun x hx => ?_⟩
  have hlt : x.toNat < b.toNat := UInt32.lt_iff_toNat_lt.mp hx
  by_contra hmarked
  exact hmin x ⟨hlt.trans hb, by simpa using hmarked⟩ hlt

/-- On a disk of less than `2 ^ 31` blocks with any free map, of any number of blocks:

* If a block is not marked, `balloc` returns the least one `b`, which is zeroed. It has set the bit
  of `b`, and no other bit has changed outside of block `b`.
* If `b` is not a block of the free map itself, `bfree` of `b` takes every block of the free map
  back to what it was.
* `bfree` of any block that is marked clears its bit and no other.

Each of the calls returns unless the log is full. -/
theorem balloc_bfree_exact (hsize : sb.size < 2 ^ 31) (s : State) :
    ((∃ b : UInt32, b.toNat < sb.size ∧ marked sb s.disk b = false) →
      ∃ b : UInt32, b.toNat < sb.size ∧ marked sb s.disk b = false ∧
        (∀ x < b, marked sb s.disk x = true) ∧
        match (balloc sb).run s with
        | .error e => LogFull sb (s.lh.length + 1) e
        | .ok (r, s₁) => r = b ∧ s₁.disk b.toNat = Block.zero ∧
          (∀ x, marked sb s₁.disk x
            = if bblock sb x = b.toNat then false else marked sb s.disk x || decide (x = b)) ∧
          (∀ c, c ≠ b.toNat → c ≠ bblock sb b → s₁.disk c = s.disk c) ∧
          ((∀ x : UInt32, x.toNat < sb.size → bblock sb x ≠ b.toNat) →
            match (bfree sb b).run s₁ with
            | .error e => LogFull sb s₁.lh.length e
            | .ok (_, s₂) => ∀ x : UInt32, x.toNat < sb.size →
              s₂.disk (bblock sb x) = s.disk (bblock sb x))) ∧
    ∀ b, marked sb s.disk b = true →
      match (bfree sb b).run s with
      | .error e => LogFull sb s.lh.length e
      | .ok (_, s₁) => (∀ x, marked sb s₁.disk x = (marked sb s.disk x && decide (x ≠ b))) ∧
        ∀ c, c ≠ bblock sb b → s₁.disk c = s.disk c := by
  refine ⟨fun h => ?_, fun b hb => ?_⟩
  · obtain ⟨b, hb, hclear, hleast⟩ := exists_least h
    refine ⟨b, hb, hclear, hleast, ?_⟩
    have hballoc := wp_balloc hsize hb hclear hleast
    split
    · next e hrun => exact hballoc.fails hrun
    · next r s₁ hrun =>
      obtain ⟨hr, hdisk⟩ := hballoc.returns hrun
      rw [hdisk]
      refine ⟨hr, Function.update_self .., fun x => marked_allocated, fun c hc hcb => ?_,
        fun hdata => ?_⟩
      · rw [allocated, Function.update_of_ne hc, mark, Function.update_of_ne hcb]
      · have hmarked : marked sb s₁.disk b = true := by
          rw [hdisk, marked_allocated, if_neg (hdata b hb)]
          simp
        have hbfree := wp_bfree hmarked
        split
        · next e hrun => exact hbfree.fails hrun
        · next s₂ hrun =>
          intro x hx
          rw [hbfree.returns hrun, hdisk]
          exact unmark_allocated hclear (hdata b hb) (hdata x hx)
  · have hbfree := wp_bfree hb
    split
    · next e hrun => exact hbfree.fails hrun
    · next s₁ hrun =>
      rw [hbfree.returns hrun]
      refine ⟨fun x => marked_unmark, fun c hc => ?_⟩
      rw [unmark, Function.update_of_ne hc]

/-- A disk of 20000 blocks, with three blocks for the free map. -/
def threeBlocks : Superblock where
  size := 20000
  nblocks := 19964
  ninodes := 16
  nlog := 30
  inodestart := 32
  bmapstart := 33

/-- The first block of the free map is full. -/
def firstFull : State :=
  { State.blank with disk := fun c => if c = 33 then fun _ => 255 else Block.zero }

theorem balloc_bfree_exact_firstFull : ∃ b : UInt32, b.toNat < 20000 ∧
    marked threeBlocks firstFull.disk b = false ∧ ∀ x < b, marked threeBlocks firstFull.disk x := by
  have hsize : threeBlocks.size < 2 ^ 31 := by decide
  obtain ⟨b, hb, hclear, hleast, -⟩ :=
    (balloc_bfree_exact hsize firstFull).1 ⟨8192, by decide, by decide +kernel⟩
  exact ⟨b, hb, hclear, hleast⟩

/-- The blocks in front of the free map are marked, but not the free map itself. -/
def mapUnmarked : State :=
  { State.blank with
    disk := fun c => if c = 33 then fun j => if j.val < 4 then 255 else if j.val = 4 then 1 else 0
      else Block.zero }

/-- The first block of the free map is allocated: its bit is set, and then it is zeroed, with the
bits of the other blocks. -/
theorem balloc_wipes_map : marked threeBlocks mapUnmarked.disk 0 = true ∧
    marked threeBlocks mapUnmarked.disk 33 = false ∧
    ((balloc threeBlocks).run mapUnmarked).toOption.map
      (fun p => (p.1, marked threeBlocks p.2.disk 0)) = some (33, false) := by
  decide +kernel

/-! ### The functions on natural numbers -/

section

variable (L : Layout)

lemma bblock_ofNat (hc : c < L.size) : bblock L.toSuperblock (UInt32.ofNat c) = L.BBLOCK c := by
  have hBPB : BPB = 8192 := by decide
  have hsize := L.size_lt
  have hlt := L.BBLOCK_lt hc
  rw [Superblock.BBLOCK, Superblock.nmeta, hBPB] at hlt
  rw [bblock, ofNat_div (by omega), ← UInt32.ofNat_add, Superblock.BBLOCK, hBPB]
  exact UInt32.toNat_ofNat_of_lt (show _ < 2 ^ 32 by omega)

/-- The loop of `balloc` on the super block of a disk. -/
lemma ballocFrom_eq (hn : k + n = 2 ^ 18) :
    ballocFrom L.toSuperblock n (Int32.ofNat (8192 * k)) = UInt32.ofNat <$>
      Fs.ballocFrom L.toSuperblock
        ((List.range' k ((L.size + BPB - 1) / BPB - k)).map (· * BPB)) := by
  have hBPB : BPB = 8192 := by decide
  have hsize := L.size_lt
  induction n generalizing k with
  | zero =>
    have hnil : (L.size + BPB - 1) / BPB - k = 0 := by
      rw [hBPB]
      omega
    rw [hnil]
    rfl
  | succ n ih =>
    rw [ballocFrom_succ hsize (by omega)]
    split_ifs with hin
    · obtain ⟨r, hr⟩ : ∃ r, (L.size + BPB - 1) / BPB - k = r + 1 := by
        rw [hBPB]
        exact ⟨(L.size + 8192 - 1) / 8192 - k - 1, by omega⟩
      have hr' : (L.size + BPB - 1) / BPB - (k + 1) = r := by omega
      rw [hr, List.range'_succ, List.map_cons, Fs.ballocFrom, bblock_ofNat L hin, hBPB,
        Nat.mul_comm k, map_bind]
      dsimp only
      congr 1
      funext blk
      cases freeBit L.toSuperblock blk (8192 * k) with
      | none =>
        simp only [map_bind]
        rw [ih (by omega), hr', hBPB]
      | some bi => simp only [map_bind, map_pure]
    · have hnil : (L.size + BPB - 1) / BPB - k = 0 := by
        rw [hBPB]
        omega
      rw [hnil]
      rfl

theorem balloc_eq : balloc L.toSuperblock = UInt32.ofNat <$> Fs.balloc L.toSuperblock := by
  have h := ballocFrom_eq L (k := 0) (n := 2 ^ 18) rfl
  rw [Nat.sub_zero, ← List.range_eq_range'] at h
  exact h

theorem bfree_eq (hc : c < L.size) :
    bfree L.toSuperblock (UInt32.ofNat c) = Fs.bfree L.toSuperblock c := by
  have hBPB : BPB = 8192 := by decide
  have hsize := L.size_lt
  have hnat : (UInt32.ofNat c).toNat = c := UInt32.toNat_ofNat_of_lt (show _ < 2 ^ 32 by omega)
  simp only [bfree, Fs.bfree, bblock_ofNat L hc, toNat_toInt32_mod, toNat_mod, hnat, hBPB]

end

end Xv6.Fs.Word
