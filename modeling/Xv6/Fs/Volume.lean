import Xv6.Core.Ledger
import Xv6.Fs.Format

/-!
# Volumes

What a file system is about, without its layout on disk: inodes, the contents of the data blocks
and the set of blocks in use. A volume is sound when every block in use is reserved or has exactly
one owner, and files have no holes. The content of a file is a sequence of bytes; giving a file a
new block does not change it.
-/

namespace Xv6.Fs

open Core

/-- The places of an inode that can hold a block. -/
inductive Slot
  | direct (i : ℕ)
  | indirect
  /-- An entry of the indirect block. -/
  | entry (j : ℕ)
  deriving DecidableEq

/-- The slot that holds the `bn`-th block of a file. -/
def fileSlot (bn : ℕ) : Slot := if bn < NDIRECT then .direct bn else .entry (bn - NDIRECT)

/-- The slot that `addrs[k]` is. -/
def addrSlot (k : ℕ) : Slot := if k < NDIRECT then .direct k else .indirect

lemma fileSlot_of_lt {bn : ℕ} (h : bn < NDIRECT) : fileSlot bn = .direct bn := if_pos h

lemma fileSlot_of_le {bn : ℕ} (h : NDIRECT ≤ bn) : fileSlot bn = .entry (bn - NDIRECT) :=
  if_neg (Nat.not_lt.mpr h)

lemma fileSlot_ne_indirect (bn : ℕ) : fileSlot bn ≠ .indirect := by
  unfold fileSlot
  split <;> simp

lemma fileSlot_injective : Function.Injective fileSlot := by
  intro a b h
  unfold fileSlot at h
  split at h <;> split at h <;> simp at h <;> omega

/-- A block address, where 0 stands for no block. -/
def nonzero (a : ℕ) : Option ℕ := if a = 0 then none else some a

variable {a : ℕ}

lemma nonzero_eq_some {b : ℕ} : nonzero a = some b ↔ a = b ∧ b ≠ 0 := by
  unfold nonzero
  split <;> simp <;> omega

@[simp]
lemma nonzero_eq_none : nonzero a = none ↔ a = 0 := by
  unfold nonzero
  split <;> simp_all

/-- The block that an inode has in a slot. -/
def Dinode.block (d : Dinode) (data : ℕ → Block) : Slot → Option ℕ
  | .direct i => if i < NDIRECT then nonzero (d.addr i) else none
  | .indirect => nonzero (d.addr NDIRECT)
  | .entry j =>
    if d.addr NDIRECT = 0 then none else nonzero ((data (d.addr NDIRECT)).word j)

/-- The blocks of an inode depend on its addresses and on its indirect block only. -/
lemma Dinode.block_congr {d d' : Dinode} {data data' : ℕ → Block}
    (haddr : ∀ k ≤ NDIRECT, d'.addr k = d.addr k)
    (hdata : d.addr NDIRECT ≠ 0 → data' (d.addr NDIRECT) = data (d.addr NDIRECT)) :
    d'.block data' = d.block data := by
  funext slot
  cases slot with
  | direct i =>
    simp only [block]
    split
    · next hi => rw [haddr i hi.le]
    · rfl
  | indirect => simp only [block, haddr NDIRECT le_rfl]
  | entry j =>
    simp only [block, haddr NDIRECT le_rfl]
    split
    · rfl
    · next ha => rw [hdata ha]

structure Volume where
  inode : ℕ → Dinode
  data : ℕ → Block
  /-- The blocks in use. -/
  used : ℕ → Prop

namespace Volume

variable (L : Layout) (V : Volume)

def Allocated (n : ℕ) : Prop := n < L.ninodes ∧ (V.inode n).type ≠ 0

instance (n : ℕ) : Decidable (V.Allocated L n) := inferInstanceAs (Decidable (_ ∧ _))

/-- The block that an allocated inode has in a slot. -/
def ref (r : ℕ × Slot) : Option ℕ :=
  if V.Allocated L r.1 then (V.inode r.1).block V.data r.2 else none

/-- The bytes of the file `n`, 0 where it has no block. -/
def content (n p : ℕ) : UInt8 :=
  match V.ref L (n, fileSlot (p / BSIZE)) with
  | some b => (V.data b).byte (p % BSIZE)
  | none => 0

/-- A sound volume. -/
structure Ok : Prop where
  used_lt : ∀ {b}, V.used b → b < L.size
  /-- The blocks in use are the blocks before the data blocks and those of the files, each of which
  has one owner. -/
  exact : Exact (· < L.nmeta) V.used (V.ref L)
  size_le : ∀ {n}, V.Allocated L n → (V.inode n).size.toNat ≤ MAXFILE * BSIZE
  /-- Files have no holes. -/
  mapped : ∀ {n bn}, V.Allocated L n → bn * BSIZE < (V.inode n).size.toNat →
    V.ref L (n, fileSlot bn) ≠ none

variable {L V} {n b k j : ℕ} {slot : Slot} {r : ℕ × Slot}

lemma ref_of_allocated (h : V.Allocated L n) :
    V.ref L (n, slot) = (V.inode n).block V.data slot := if_pos h

lemma ref_of_not_allocated (h : ¬V.Allocated L n) : V.ref L (n, slot) = none := if_neg h

lemma allocated_of_ref (h : V.ref L (n, slot) = some b) : V.Allocated L n := by
  by_contra hn
  rw [ref_of_not_allocated hn] at h
  cases h

lemma content_of_ref {p : ℕ} (h : V.ref L (n, fileSlot (p / BSIZE)) = some b) :
    V.content L n p = (V.data b).byte (p % BSIZE) := by
  rw [content, h]

lemma content_of_none {p : ℕ} (h : V.ref L (n, fileSlot (p / BSIZE)) = none) :
    V.content L n p = 0 := by
  rw [content, h]

lemma ref_ne_zero (h : V.ref L r = some b) : b ≠ 0 := by
  obtain ⟨n, slot⟩ := r
  rw [ref_of_allocated (allocated_of_ref h)] at h
  cases slot with
  | direct i =>
    simp only [Dinode.block] at h
    split at h
    · exact (nonzero_eq_some.mp h).2
    · cases h
  | indirect => exact (nonzero_eq_some.mp h).2
  | entry j =>
    simp only [Dinode.block] at h
    split at h
    · cases h
    · exact (nonzero_eq_some.mp h).2

/-- The address of the indirect block is that of a block of the file. -/
lemma ref_indirect (h : V.Allocated L n) (ha : (V.inode n).addr NDIRECT ≠ 0) :
    V.ref L (n, .indirect) = some ((V.inode n).addr NDIRECT) := by
  rw [ref_of_allocated h]
  exact nonzero_eq_some.mpr ⟨rfl, ha⟩

lemma ref_addrSlot (h : V.Allocated L n) (hk : k ≤ NDIRECT) :
    V.ref L (n, addrSlot k) = nonzero ((V.inode n).addr k) := by
  rw [ref_of_allocated h]
  unfold addrSlot
  split
  · next hlt => exact if_pos hlt
  · next hlt =>
    obtain rfl : k = NDIRECT := by omega
    rfl

/-- Blocks of files are data blocks. -/
lemma Ok.le_of_ref (h : V.Ok L) (hr : V.ref L r = some b) : L.nmeta ≤ b :=
  Nat.not_lt.mp (h.exact.not_reserved hr)

lemma Ok.lt_of_ref (h : V.Ok L) (hr : V.ref L r = some b) : b < L.size :=
  h.used_lt (h.exact.used_of_ref hr)

/-- Blocks that are not in use are data blocks. -/
lemma Ok.le_of_not_used (h : V.Ok L) (hb : ¬V.used b) : L.nmeta ≤ b := by
  by_contra hlt
  exact hb ((h.exact.used_iff b).mpr (.inl (Nat.not_le.mp hlt)))

/-! ### Changes that leave the blocks of files alone -/

variable {V' : Volume}

/-- What the blocks of the files are depends on the inodes and on the indirect blocks only. -/
lemma ref_congr (halloc : ∀ n, V'.Allocated L n ↔ V.Allocated L n)
    (haddr : ∀ n, V.Allocated L n → ∀ k ≤ NDIRECT, (V'.inode n).addr k = (V.inode n).addr k)
    (hdata : ∀ n b, V.ref L (n, .indirect) = some b → V'.data b = V.data b) :
    V'.ref L = V.ref L := by
  funext ⟨n, slot⟩
  by_cases hn : V.Allocated L n
  · rw [ref_of_allocated hn, ref_of_allocated ((halloc n).mpr hn)]
    apply congrFun
    apply Dinode.block_congr (haddr n hn)
    intro ha
    exact hdata n _ (ref_indirect hn ha)
  · rw [ref_of_not_allocated hn, ref_of_not_allocated fun h => hn ((halloc n).mp h)]

/-- The content of a file depends on its blocks and on their contents. -/
lemma content_congr (href : ∀ bn, V'.ref L (n, fileSlot bn) = V.ref L (n, fileSlot bn))
    (hdata : ∀ bn b, V.ref L (n, fileSlot bn) = some b → V'.data b = V.data b) :
    V'.content L n = V.content L n := by
  funext p
  cases h : V.ref L (n, fileSlot (p / BSIZE)) with
  | none => rw [content_of_none h, content_of_none ((href _).trans h)]
  | some b => rw [content_of_ref h, content_of_ref ((href _).trans h), hdata _ b h]

/-- A volume stays sound when its blocks and their owners stay the same. -/
lemma Ok.congr (h : V.Ok L) (hused : V'.used = V.used) (href : V'.ref L = V.ref L)
    (hsize : ∀ n, V'.Allocated L n → (V'.inode n).size.toNat ≤ MAXFILE * BSIZE)
    (hmapped : ∀ n bn, V'.Allocated L n → bn * BSIZE < (V'.inode n).size.toNat →
      V.ref L (n, fileSlot bn) ≠ none) : V'.Ok L where
  used_lt := by
    rw [hused]
    exact h.used_lt
  exact := by
    rw [hused, href]
    exact h.exact
  size_le hn := hsize _ hn
  mapped hn hbn := by
    rw [href]
    exact hmapped _ _ hn hbn

/-! ### Assigning to an inode -/

section SetInode

variable {m : ℕ} {d : Dinode}

def setInode (V : Volume) (n : ℕ) (d : Dinode) : Volume :=
  { V with inode := Function.update V.inode n d }

@[simp]
lemma setInode_data : (V.setInode n d).data = V.data := rfl

@[simp]
lemma setInode_used : (V.setInode n d).used = V.used := rfl

@[simp]
lemma setInode_inode_self : (V.setInode n d).inode n = d := by
  simp only [setInode, Function.update_self]

lemma setInode_inode_of_ne (hm : m ≠ n) : (V.setInode n d).inode m = V.inode m := by
  simp only [setInode, Function.update_of_ne hm]

lemma allocated_setInode_of_ne (hm : m ≠ n) :
    (V.setInode n d).Allocated L m ↔ V.Allocated L m := by
  rw [Allocated, Allocated, setInode_inode_of_ne hm]

lemma ref_setInode_of_ne (hm : m ≠ n) : (V.setInode n d).ref L (m, slot) = V.ref L (m, slot) := by
  simp only [ref, allocated_setInode_of_ne hm, setInode_inode_of_ne hm, setInode_data]

/-- Fields other than the type and the addresses do not matter for the blocks. -/
lemma ref_setInode (htype : d.type = (V.inode n).type)
    (haddr : ∀ k ≤ NDIRECT, d.addr k = (V.inode n).addr k) : (V.setInode n d).ref L = V.ref L := by
  apply ref_congr
  · intro m
    rcases eq_or_ne m n with rfl | hm
    · rw [Allocated, Allocated, setInode_inode_self, htype]
    · exact allocated_setInode_of_ne hm
  · intro m _ k hk
    rcases eq_or_ne m n with rfl | hm
    · rw [setInode_inode_self, haddr k hk]
    · rw [setInode_inode_of_ne hm]
  · intro m b _
    rfl

/-- An inode without blocks is replaced by another one. -/
lemma ref_setInode_of_empty (hn : ∀ slot, V.ref L (n, slot) = none)
    (haddr : ∀ k ≤ NDIRECT, d.addr k = 0) : (V.setInode n d).ref L = V.ref L := by
  funext ⟨m, slot⟩
  rcases eq_or_ne m n with rfl | hm
  · rw [hn slot]
    by_cases ha : (V.setInode m d).Allocated L m
    · rw [ref_of_allocated ha, setInode_inode_self]
      cases slot with
      | direct i =>
        simp only [Dinode.block]
        split
        · next hi => rw [haddr i hi.le, nonzero_eq_none]
        · rfl
      | indirect => rw [Dinode.block, haddr NDIRECT le_rfl, nonzero_eq_none]
      | entry j => rw [Dinode.block, if_pos (haddr NDIRECT le_rfl)]
    · exact ref_of_not_allocated ha
  · exact ref_setInode_of_ne hm

lemma content_setInode (href : (V.setInode n d).ref L = V.ref L) :
    (V.setInode n d).content L = V.content L := by
  funext m
  apply content_congr
  · intro bn
    rw [href]
  · intro bn b _
    rfl

/-- The type and the addresses stay, and the size covers no more than what is mapped. -/
lemma Ok.setInode (h : V.Ok L) (htype : d.type = (V.inode n).type)
    (haddr : ∀ k ≤ NDIRECT, d.addr k = (V.inode n).addr k)
    (hsize : V.Allocated L n → d.size.toNat ≤ MAXFILE * BSIZE ∧
      ∀ bn, bn * BSIZE < d.size.toNat → V.ref L (n, fileSlot bn) ≠ none) :
    (V.setInode n d).Ok L := by
  have href : (V.setInode n d).ref L = V.ref L := ref_setInode htype haddr
  have halloc : (V.setInode n d).Allocated L n → V.Allocated L n := by
    intro hn
    rwa [Allocated, setInode_inode_self, htype] at hn
  apply h.congr setInode_used href
  · intro m hm
    rcases eq_or_ne m n with rfl | hne
    · rw [setInode_inode_self]
      exact (hsize (halloc hm)).1
    · rw [setInode_inode_of_ne hne]
      exact h.size_le ((allocated_setInode_of_ne hne).mp hm)
  · intro m bn hm hbn
    rcases eq_or_ne m n with rfl | hne
    · rw [setInode_inode_self] at hbn
      exact (hsize (halloc hm)).2 bn hbn
    · rw [setInode_inode_of_ne hne] at hbn
      exact h.mapped ((allocated_setInode_of_ne hne).mp hm) hbn

/-- Allocating or freeing an inode that has no blocks. -/
lemma Ok.setInode_of_empty (h : V.Ok L) (hn : ∀ slot, V.ref L (n, slot) = none)
    (haddr : ∀ k ≤ NDIRECT, d.addr k = 0) (hsize : d.size = 0) : (V.setInode n d).Ok L := by
  have href : (V.setInode n d).ref L = V.ref L := ref_setInode_of_empty hn haddr
  apply h.congr setInode_used href
  · intro m hm
    rcases eq_or_ne m n with rfl | hne
    · simp [hsize]
    · rw [setInode_inode_of_ne hne]
      exact h.size_le ((allocated_setInode_of_ne hne).mp hm)
  · intro m bn hm hbn
    rcases eq_or_ne m n with rfl | hne
    · simp [hsize] at hbn
    · rw [setInode_inode_of_ne hne] at hbn
      exact h.mapped ((allocated_setInode_of_ne hne).mp hm) hbn

end SetInode

/-! ### Writing to a block of a file -/

variable {m : ℕ}

section Write

variable {bn : ℕ} {blk : Block}

def write (V : Volume) (b : ℕ) (blk : Block) : Volume :=
  { V with data := Function.update V.data b blk }

@[simp]
lemma write_inode : (V.write b blk).inode = V.inode := rfl

@[simp]
lemma write_used : (V.write b blk).used = V.used := rfl

lemma write_data_of_ne {x : ℕ} (hx : x ≠ b) : (V.write b blk).data x = V.data x := by
  simp only [write, Function.update_of_ne hx]

@[simp]
lemma write_data_self : (V.write b blk).data b = blk := by
  simp only [write, Function.update_self]

lemma ref_write (h : V.Ok L) (hr : V.ref L (n, fileSlot bn) = some b) :
    (V.write b blk).ref L = V.ref L := by
  apply ref_congr
  · exact fun _ => Iff.rfl
  · exact fun _ _ _ _ => rfl
  · intro m x hx
    apply write_data_of_ne
    apply h.exact.ne_of_ref_ne hx hr
    intro heq
    exact fileSlot_ne_indirect bn (congrArg Prod.snd heq).symm

lemma content_write_of_ne (h : V.Ok L) (hr : V.ref L (n, fileSlot bn) = some b) (hm : m ≠ n) :
    (V.write b blk).content L m = V.content L m := by
  apply content_congr
  · intro bn'
    rw [ref_write h hr]
  · intro bn' x hx
    apply write_data_of_ne
    apply h.exact.ne_of_ref_ne hx hr
    intro heq
    exact hm (congrArg Prod.fst heq)

lemma content_write_self (h : V.Ok L) (hr : V.ref L (n, fileSlot bn) = some b) (p : ℕ) :
    (V.write b blk).content L n p
      = if p / BSIZE = bn then blk.byte (p % BSIZE) else V.content L n p := by
  have href : (V.write b blk).ref L = V.ref L := ref_write h hr
  split
  · next hp =>
    subst hp
    rw [content_of_ref (by rw [href]; exact hr), write_data_self]
  · next hp =>
    cases hx : V.ref L (n, fileSlot (p / BSIZE)) with
    | none => rw [content_of_none hx, content_of_none (by rw [href]; exact hx)]
    | some x =>
      rw [content_of_ref hx, content_of_ref (by rw [href]; exact hx), write_data_of_ne]
      apply h.exact.ne_of_ref_ne hx hr
      intro heq
      exact hp (fileSlot_injective (congrArg Prod.snd heq))

lemma Ok.write (h : V.Ok L) (hr : V.ref L (n, fileSlot bn) = some b) : (V.write b blk).Ok L := by
  apply h.congr write_used (ref_write h hr)
  · exact fun m hm => h.size_le hm
  · exact fun m bn' hm hbn => h.mapped hm hbn

/-- Copying bytes into a block replaces these bytes of the file. -/
lemma content_patch (h : V.Ok L) {off c : ℕ} {f : ℕ → UInt8}
    (hr : V.ref L (n, fileSlot (off / BSIZE)) = some b) (hc : off % BSIZE + c ≤ BSIZE) (p : ℕ) :
    (V.write b ((V.data b).patch (off % BSIZE) c f)).content L n p
      = if off ≤ p ∧ p < off + c then f (p - off) else V.content L n p := by
  have hoff := Nat.div_add_mod off BSIZE
  have hp := Nat.div_add_mod p BSIZE
  have hpos : 0 < BSIZE := by decide
  have hmod : p % BSIZE < BSIZE := Nat.mod_lt _ hpos
  rw [content_write_self h hr]
  by_cases hbn : p / BSIZE = off / BSIZE
  · rw [if_pos hbn, Block.byte_patch _ hc]
    rw [hbn] at hp
    by_cases hin : off ≤ p ∧ p < off + c
    · rw [if_pos hin, if_pos (by omega)]
      congr 1
      omega
    · rw [if_neg hin, if_neg (by omega), content_of_ref (by rw [hbn]; exact hr)]
  · rw [if_neg hbn, if_neg]
    rintro ⟨hle, hlt⟩
    apply hbn
    apply le_antisymm
    · have : p < BSIZE * (off / BSIZE + 1) := by
        rw [Nat.mul_succ]
        omega
      exact Nat.lt_succ_iff.mp ((Nat.div_lt_iff_lt_mul hpos).mpr (by rwa [Nat.mul_comm]))
    · exact Nat.div_le_div_right hle

end Write

/-! ### Giving a file a new block -/

/-- The block `b` is taken into use and zeroed. -/
def mark (V : Volume) (b : ℕ) : Volume where
  inode := V.inode
  data := Function.update V.data b Block.zero
  used := fun x => V.used x ∨ x = b

/-- `addrs[k] = b` -/
def assign (V : Volume) (n k b : ℕ) : Volume := V.setInode n ((V.inode n).setAddr k b)

/-- The entry `j` of the indirect block `a` becomes `b`. -/
def setEntry (V : Volume) (a j b : ℕ) : Volume := V.write a ((V.data a).setWord j b)

/-- `V'` is `V` with more blocks for the file `n`. -/
structure Grows (L : Layout) (n : ℕ) (V V' : Volume) : Prop where
  inode_of_ne : ∀ m, m ≠ n → V'.inode m = V.inode m
  inode_self : ∃ addrs, V'.inode n = { V.inode n with addrs := addrs }
  content : V'.content L = V.content L
  ref : ∀ r b, V.ref L r = some b → V'.ref L r = some b
  ref_of_ne : ∀ m slot, m ≠ n → V'.ref L (m, slot) = V.ref L (m, slot)

namespace Grows

variable {V₁ V₂ V₃ : Volume}

lemma refl : Grows L n V V where
  inode_of_ne _ _ := rfl
  inode_self := ⟨_, rfl⟩
  content := rfl
  ref _ _ h := h
  ref_of_ne _ _ _ := rfl

lemma trans (h : Grows L n V₁ V₂) (h' : Grows L n V₂ V₃) : Grows L n V₁ V₃ where
  inode_of_ne m hm := (h'.inode_of_ne m hm).trans (h.inode_of_ne m hm)
  inode_self := by
    obtain ⟨a, ha⟩ := h.inode_self
    obtain ⟨a', ha'⟩ := h'.inode_self
    rw [ha] at ha'
    exact ⟨a', ha'⟩
  content := h'.content.trans h.content
  ref r b hr := h'.ref r b (h.ref r b hr)
  ref_of_ne m slot hm := (h'.ref_of_ne m slot hm).trans (h.ref_of_ne m slot hm)

lemma type_eq (h : Grows L n V₁ V₂) (m : ℕ) : (V₂.inode m).type = (V₁.inode m).type := by
  rcases eq_or_ne m n with rfl | hm
  · obtain ⟨a, ha⟩ := h.inode_self
    rw [ha]
  · rw [h.inode_of_ne m hm]

lemma size_eq (h : Grows L n V₁ V₂) (m : ℕ) : (V₂.inode m).size = (V₁.inode m).size := by
  rcases eq_or_ne m n with rfl | hm
  · obtain ⟨a, ha⟩ := h.inode_self
    rw [ha]
  · rw [h.inode_of_ne m hm]

lemma allocated_iff (h : Grows L n V₁ V₂) : V₂.Allocated L m ↔ V₁.Allocated L m := by
  rw [Allocated, Allocated, h.type_eq]

lemma mapped (h : Grows L n V₁ V₂) (hr : V₁.ref L r ≠ none) : V₂.ref L r ≠ none := by
  obtain ⟨b, hb⟩ := Option.ne_none_iff_exists'.mp hr
  rw [h.ref r b hb]
  simp

end Grows

section Alloc

variable {W : Volume}

/-- A file gets an unused block, which is zeroed: the volume stays sound and the contents of all
the files stay the same. -/
lemma Ok.grow (h : V.Ok L) (hb : ¬V.used b) (hlt : b < L.size) (hr : V.ref L (n, slot) = none)
    (href : W.ref L = Function.update (V.ref L) (n, slot) (some b))
    (hused : W.used = fun x => V.used x ∨ x = b) (hzero : W.data b = Block.zero)
    (hdata : ∀ m bn x, V.ref L (m, fileSlot bn) = some x → W.data x = V.data x)
    (hne : ∀ m, m ≠ n → W.inode m = V.inode m)
    (hself : ∃ addrs, W.inode n = { V.inode n with addrs := addrs }) :
    W.Ok L ∧ Grows L n V W := by
  have hgrow : ∀ r x, V.ref L r = some x → W.ref L r = some x := by
    intro r x hx
    rw [href, Function.update_of_ne]
    · exact hx
    · rintro rfl
      rw [hr] at hx
      cases hx
  have hcontent : W.content L = V.content L := by
    funext m p
    cases hx : V.ref L (m, fileSlot (p / BSIZE)) with
    | some x => rw [content_of_ref hx, content_of_ref (hgrow _ x hx), hdata _ _ x hx]
    | none =>
      rw [content_of_none hx]
      by_cases hslot : (m, fileSlot (p / BSIZE)) = (n, slot)
      · have hb' : W.ref L (m, fileSlot (p / BSIZE)) = some b := by
          rw [hslot, href, Function.update_self]
        rw [content_of_ref hb', hzero, Block.byte_zero]
      · apply content_of_none
        rw [href, Function.update_of_ne hslot, hx]
  have hG : Grows L n V W := by
    refine ⟨hne, hself, hcontent, hgrow, ?_⟩
    intro m slot' hm
    rw [href, Function.update_of_ne]
    intro heq
    exact hm (congrArg Prod.fst heq)
  refine ⟨⟨?_, ?_, ?_, ?_⟩, hG⟩
  · intro x hx
    rw [hused] at hx
    rcases hx with hx | rfl
    · exact h.used_lt hx
    · exact hlt
  · rw [hused, href]
    exact h.exact.alloc hb hr
  · intro m hm
    rw [hG.size_eq]
    exact h.size_le (hG.allocated_iff.mp hm)
  · intro m bn hm hbn
    rw [hG.size_eq] at hbn
    exact hG.mapped (h.mapped (hG.allocated_iff.mp hm) hbn)

lemma ref_mark (h : V.Ok L) (hb : ¬V.used b) : (V.mark b).ref L = V.ref L := by
  apply ref_congr
  · exact fun _ => Iff.rfl
  · exact fun _ _ _ _ => rfl
  · intro m x hx
    have hne : x ≠ b := by
      rintro rfl
      exact h.exact.ref_ne_of_not_used hb _ hx
    simp only [mark, Function.update_of_ne hne]

/-- The empty place `addrs[k]` gets the zeroed block `b`. -/
lemma ref_assign (hn : V.Allocated L n) (hk : k ≤ NDIRECT) (ha : (V.inode n).addr k = 0)
    (hb : b ≠ 0) (hb32 : b < 2 ^ 32) (hzero : V.data b = Block.zero) :
    (V.assign n k b).ref L = Function.update (V.ref L) (n, addrSlot k) (some b) := by
  have hn' : (V.assign n k b).Allocated L n := by
    rw [assign, Allocated, setInode_inode_self]
    exact hn
  have hself : ((V.assign n k b).inode n).addr k = b := by
    rw [assign, setInode_inode_self, Dinode.addr_setAddr_self _ hk hb32]
  have hother : ∀ i, i ≠ k → ((V.assign n k b).inode n).addr i = (V.inode n).addr i := by
    intro i hi
    rw [assign, setInode_inode_self, Dinode.addr_setAddr_of_ne _ _ hi]
  funext ⟨m, slot⟩
  rcases eq_or_ne m n with rfl | hm
  · rcases eq_or_ne slot (addrSlot k) with rfl | hslot
    · rw [Function.update_self, ref_addrSlot hn' hk, hself]
      exact nonzero_eq_some.mpr ⟨rfl, hb⟩
    · have hpair : (m, slot) ≠ (m, addrSlot k) := fun heq => hslot (congrArg Prod.snd heq)
      rw [Function.update_of_ne hpair, ref_of_allocated hn', ref_of_allocated hn]
      cases slot with
      | direct i =>
        simp only [Dinode.block]
        split
        · next hi =>
          rw [hother]
          rintro rfl
          exact hslot (if_pos hi).symm
        · rfl
      | indirect =>
        rw [Dinode.block, Dinode.block, hother]
        rintro rfl
        exact hslot (if_neg (lt_irrefl _)).symm
      | entry j =>
        rcases eq_or_ne NDIRECT k with rfl | hne
        · -- a new indirect block has no entries
          have hdata : (V.assign m NDIRECT b).data b = Block.zero := hzero
          rw [Dinode.block, Dinode.block, if_pos ha, hself, if_neg hb, hdata, Block.word_zero,
            nonzero_eq_none]
        · rw [Dinode.block, Dinode.block, hother _ hne]
          rfl
  · have hpair : (m, slot) ≠ (n, addrSlot k) := fun heq => hm (congrArg Prod.fst heq)
    rw [Function.update_of_ne hpair]
    exact ref_setInode_of_ne hm

/-- The empty entry `j` of the indirect block `a` of `n` gets the block `b`. -/
lemma ref_setEntry (ha : V.ref L (n, .indirect) = some a)
    (hinj : ∀ m, V.ref L (m, .indirect) = some a → m = n) (hj : j < NINDIRECT) (hb : b ≠ 0)
    (hb32 : b < 2 ^ 32) :
    (V.setEntry a j b).ref L = Function.update (V.ref L) (n, .entry j) (some b) := by
  have hn : V.Allocated L n := allocated_of_ref ha
  have haddr : (V.inode n).addr NDIRECT = a ∧ a ≠ 0 := by
    rw [ref_of_allocated hn] at ha
    exact nonzero_eq_some.mp ha
  funext ⟨m, slot⟩
  by_cases hm : V.Allocated L m
  swap
  · have hpair : (m, slot) ≠ (n, .entry j) := by
      intro heq
      obtain ⟨rfl, -⟩ := Prod.mk.inj heq
      exact hm hn
    rw [Function.update_of_ne hpair, ref_of_not_allocated hm]
    exact ref_of_not_allocated hm
  rcases eq_or_ne m n with rfl | hne
  · rcases eq_or_ne slot (.entry j) with rfl | hslot
    · have hword : ((V.setEntry a j b).data a).word j = b := by
        rw [setEntry, write_data_self, Block.word_setWord_self _ _ hj, Nat.mod_eq_of_lt hb32]
      rw [Function.update_self, ref_of_allocated (V := V.setEntry a j b) hm]
      simp only [Dinode.block, setEntry, write_inode, haddr.1, if_neg haddr.2]
      exact nonzero_eq_some.mpr ⟨hword, hb⟩
    · have hpair : (m, slot) ≠ (m, .entry j) := fun heq => hslot (congrArg Prod.snd heq)
      rw [Function.update_of_ne hpair, ref_of_allocated (V := V.setEntry a j b) hm,
        ref_of_allocated hm]
      cases slot with
      | direct i => rfl
      | indirect => rfl
      | entry i =>
        have hij : i ≠ j := by
          rintro rfl
          exact hslot rfl
        simp only [Dinode.block, setEntry, write_inode, haddr.1, write_data_self,
          Block.word_setWord_of_ne _ _ hij]
  · -- the indirect block belongs to `n` alone
    have hpair : (m, slot) ≠ (n, .entry j) := fun heq => hne (congrArg Prod.fst heq)
    rw [Function.update_of_ne hpair, ref_of_allocated (V := V.setEntry a j b) hm,
      ref_of_allocated hm]
    apply congrFun
    apply Dinode.block_congr (fun _ _ => rfl)
    intro hma
    apply write_data_of_ne
    intro heq
    exact hne (hinj m ((ref_indirect hm hma).trans (congrArg some heq)))

lemma Ok.ne_of_not_used (h : V.Ok L) (hb : ¬V.used b) {x : ℕ} (hx : V.ref L r = some x) :
    x ≠ b := by
  rintro rfl
  exact h.exact.ref_ne_of_not_used hb r hx

lemma Ok.ne_zero_of_not_used (h : V.Ok L) (hb : ¬V.used b) : b ≠ 0 := by
  have := h.le_of_not_used hb
  have := L.nmeta_pos
  omega

/-- `ip->addrs[k] = balloc()` -/
lemma Ok.alloc_addr (h : V.Ok L) (hn : V.Allocated L n) (hk : k ≤ NDIRECT)
    (ha : (V.inode n).addr k = 0) (hb : ¬V.used b) (hlt : b < L.size) :
    ((V.mark b).assign n k b).Ok L ∧ Grows L n V ((V.mark b).assign n k b) ∧
      ((V.mark b).assign n k b).ref L (n, addrSlot k) = some b := by
  have hb32 : b < 2 ^ 32 := by
    have := L.size_lt
    omega
  have hzero : (V.mark b).data b = Block.zero := by simp only [mark, Function.update_self]
  have href : ((V.mark b).assign n k b).ref L
      = Function.update (V.ref L) (n, addrSlot k) (some b) := by
    rw [ref_assign (V := V.mark b) hn hk ha (h.ne_zero_of_not_used hb) hb32 hzero, ref_mark h hb]
  have hnone : V.ref L (n, addrSlot k) = none := by
    rw [ref_addrSlot hn hk, ha, nonzero_eq_none]
  have hgrow := h.grow (W := (V.mark b).assign n k b) hb hlt hnone href rfl hzero
    (by
      intro m bn x hx
      simp only [assign, setInode_data, mark, Function.update_of_ne (h.ne_of_not_used hb hx)])
    (fun m hm => setInode_inode_of_ne hm) ⟨_, setInode_inode_self⟩
  exact ⟨hgrow.1, hgrow.2, by rw [href, Function.update_self]⟩

/-- `a[j] = balloc()`, for the indirect block `a` of `n` -/
lemma Ok.alloc_entry (h : V.Ok L) (ha : V.ref L (n, .indirect) = some a)
    (hj : j < NINDIRECT) (hnone : V.ref L (n, .entry j) = none) (hb : ¬V.used b)
    (hlt : b < L.size) :
    ((V.mark b).setEntry a j b).Ok L ∧ Grows L n V ((V.mark b).setEntry a j b) ∧
      ((V.mark b).setEntry a j b).ref L (n, .entry j) = some b := by
  have hb32 : b < 2 ^ 32 := by
    have := L.size_lt
    omega
  have hab : b ≠ a := (h.ne_of_not_used hb ha).symm
  have hmark : (V.mark b).ref L = V.ref L := ref_mark h hb
  have hinj : ∀ m, (V.mark b).ref L (m, .indirect) = some a → m = n := by
    intro m hm
    rw [hmark] at hm
    exact congrArg Prod.fst (h.exact.inj hm ha)
  have href : ((V.mark b).setEntry a j b).ref L
      = Function.update (V.ref L) (n, .entry j) (some b) := by
    rw [ref_setEntry (hmark ▸ ha) hinj hj (h.ne_zero_of_not_used hb) hb32, hmark]
  have hzero : ((V.mark b).setEntry a j b).data b = Block.zero := by
    rw [setEntry, write_data_of_ne hab]
    simp only [mark, Function.update_self]
  have hgrow := h.grow (W := (V.mark b).setEntry a j b) hb hlt hnone href rfl hzero
    (by
      -- the blocks of file contents are neither `b` nor the indirect block
      intro m bn x hx
      have hxa : x ≠ a := by
        apply h.exact.ne_of_ref_ne hx ha
        intro heq
        exact fileSlot_ne_indirect bn (congrArg Prod.snd heq)
      rw [setEntry, write_data_of_ne hxa]
      simp only [mark, Function.update_of_ne (h.ne_of_not_used hb hx)])
    (fun m _ => rfl) ⟨_, rfl⟩
  exact ⟨hgrow.1, hgrow.2, by rw [href, Function.update_self]⟩

end Alloc

/-! ### Discarding the content of a file -/

/-- The blocks of `n` are given back. -/
def truncate (L : Layout) (V : Volume) (n : ℕ) : Volume where
  inode := Function.update V.inode n (V.inode n).clear
  data := V.data
  used := fun x => V.used x ∧ ∀ slot, V.ref L (n, slot) ≠ some x

/-- The blocks of `n` are given back and the inode is freed. -/
def delete (L : Layout) (V : Volume) (n : ℕ) : Volume :=
  (V.truncate L n).setInode n { (V.inode n).clear with type := 0 }

/-- All the slots of the file `n`. -/
def slots (n : ℕ) : Set (ℕ × Slot) := {r | r.1 = n}

lemma mem_slots : (m, slot) ∈ slots n ↔ m = n := Iff.rfl

lemma truncate_inode_self : (V.truncate L n).inode n = (V.inode n).clear := by
  simp only [truncate, Function.update_self]

lemma truncate_inode_of_ne (hm : m ≠ n) : (V.truncate L n).inode m = V.inode m := by
  simp only [truncate, Function.update_of_ne hm]

lemma allocated_truncate : (V.truncate L n).Allocated L m ↔ V.Allocated L m := by
  rcases eq_or_ne m n with rfl | hm
  · rw [Allocated, truncate_inode_self]
    rfl
  · rw [Allocated, Allocated, truncate_inode_of_ne hm]

lemma ref_truncate : (V.truncate L n).ref L = Exact.hide (slots n) (V.ref L) := by
  funext ⟨m, slot⟩
  rcases eq_or_ne m n with rfl | hm
  · rw [Exact.hide_of_mem (mem_slots.mpr rfl)]
    by_cases ha : (V.truncate L m).Allocated L m
    · rw [ref_of_allocated ha, truncate_inode_self]
      cases slot with
      | direct i => simp [Dinode.block]
      | indirect => simp [Dinode.block]
      | entry j => simp [Dinode.block]
    · exact ref_of_not_allocated ha
  · rw [Exact.hide_of_notMem (mt mem_slots.mp hm)]
    simp only [ref, allocated_truncate, truncate_inode_of_ne hm]
    rfl

lemma ref_truncate_self : (V.truncate L n).ref L (n, slot) = none := by
  rw [ref_truncate]
  exact Exact.hide_of_mem (mem_slots.mpr rfl)

lemma ref_truncate_of_ne (hm : m ≠ n) : (V.truncate L n).ref L (m, slot) = V.ref L (m, slot) := by
  rw [ref_truncate]
  exact Exact.hide_of_notMem (mt mem_slots.mp hm)

/-- The marks of a truncated volume are the exact ones. -/
lemma Ok.exact_truncate (h : V.Ok L) :
    Exact (· < L.nmeta) (V.truncate L n).used (Exact.hide (slots n) (V.ref L)) := by
  have hused : (V.truncate L n).used
      = fun x => V.used x ∧ ∀ r ∈ slots n, V.ref L r ≠ some x := by
    funext x
    simp only [truncate, slots, Set.mem_ofPred_eq, Prod.forall, eq_iff_iff]
    grind
  rw [hused]
  exact h.exact.free_all (slots n)

lemma Ok.truncate (h : V.Ok L) : (V.truncate L n).Ok L where
  used_lt hx := h.used_lt hx.1
  exact := by
    rw [ref_truncate]
    exact h.exact_truncate
  size_le := by
    intro m hm
    rcases eq_or_ne m n with rfl | hne
    · rw [truncate_inode_self]
      exact Nat.zero_le _
    · rw [truncate_inode_of_ne hne]
      exact h.size_le (allocated_truncate.mp hm)
  mapped := by
    intro m bn hm hbn
    rcases eq_or_ne m n with rfl | hne
    · rw [truncate_inode_self] at hbn
      exact absurd hbn (Nat.not_lt_zero _)
    · rw [truncate_inode_of_ne hne] at hbn
      rw [ref_truncate_of_ne hne]
      exact h.mapped (allocated_truncate.mp hm) hbn

lemma Ok.delete (h : V.Ok L) : (V.delete L n).Ok L := by
  apply h.truncate.setInode_of_empty
  · exact fun slot => ref_truncate_self
  · intro k _
    exact Dinode.addr_clear (V.inode n) k
  · rfl

end Volume

end Xv6.Fs
