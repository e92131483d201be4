import Mathlib.Data.Finset.Card
import Mathlib.Data.Finset.Union
import Mathlib.Data.Option.Basic
import Xv6.Fs.Inode
import Xv6.Fs.Volume

/-!
# Free blocks and room in the log

What a write to a file can use up: free blocks, of which it takes one for each slot of the file that
has none yet, and entries of the log, where a block that is there already is not recorded again.
-/

namespace Xv6.Fs

/-- A write to the file `inum` that may give it blocks in these slots, when the log is `lh` with so
many calls outstanding. -/
structure Demand where
  inum : ℕ
  slots : Finset Slot
  lh : List ℕ
  outstanding : ℕ

/-! ### The log -/

/-- Of the log only this has changed, that some of the blocks `B` are added. -/
def Logged (d : Demand) (B : Finset ℕ) (s : State) : Prop :=
  s.outstanding = d.outstanding ∧
    ∃ added : List ℕ, s.lh = d.lh ++ added ∧ added.Nodup ∧ ∀ b ∈ added, b ∈ B

namespace Logged

variable {d : Demand} {s : State} {B B' : Finset ℕ} {b : ℕ}

lemma mono (h : Logged d B s) (hB : B ⊆ B') : Logged d B' s := by
  obtain ⟨hout, added, hlh, hnodup, hadded⟩ := h
  exact ⟨hout, added, hlh, hnodup, fun b hb => hB (hadded b hb)⟩

lemma length_le (h : Logged d B s) : s.lh.length ≤ d.lh.length + B.card := by
  obtain ⟨-, added, hlh, hnodup, hadded⟩ := h
  rw [hlh, List.length_append, ← List.toFinset_card_of_nodup hnodup]
  apply Nat.add_le_add_left
  apply Finset.card_le_card
  intro b hb
  exact hadded b (List.mem_toFinset.mp hb)

/-- One more block is recorded. -/
lemma record (h : Logged d B s) :
    Logged d (insert b B) { s with lh := if b ∈ s.lh then s.lh else s.lh ++ [b] } := by
  obtain ⟨hout, added, hlh, hnodup, hadded⟩ := h
  refine ⟨hout, ?_⟩
  dsimp only
  split
  · exact ⟨added, hlh, hnodup, fun x hx => Finset.mem_insert_of_mem (hadded x hx)⟩
  · next hb =>
    rw [hlh, List.mem_append, not_or] at hb
    refine ⟨added ++ [b], by rw [hlh, List.append_assoc], ?_, ?_⟩
    · rw [List.nodup_append]
      refine ⟨hnodup, List.nodup_singleton b, ?_⟩
      intro x hx y hy heq
      rw [List.mem_singleton.mp hy] at heq
      exact hb.2 (heq ▸ hx)
    · intro x hx
      rcases List.mem_append.mp hx with hx | hx
      · exact Finset.mem_insert_of_mem (hadded x hx)
      · rw [List.mem_singleton.mp hx]
        exact Finset.mem_insert_self b B

end Logged

/-! ### Blocks -/

namespace Volume

variable (L : Layout) (V : Volume) (d : Demand)

/-- The slots that have no block yet. -/
def missing : Finset Slot := d.slots.filter fun slot => V.ref L (d.inum, slot) = none

open Classical in
/-- The blocks that are not in use. -/
noncomputable def free : Finset ℕ := (Finset.range L.size).filter fun b => ¬V.used b

/-- The blocks that the write may record, on a disk with one block of free map. -/
def touched : Finset ℕ :=
  insert (L.BBLOCK 0) (insert (L.IBLOCK d.inum)
    (d.slots.biUnion fun slot => (V.ref L (d.inum, slot)).toFinset))

variable {L V d} {W : Volume} {slot : Slot} {b : ℕ}

lemma mem_missing : slot ∈ V.missing L d ↔ slot ∈ d.slots ∧ V.ref L (d.inum, slot) = none :=
  Finset.mem_filter

lemma mem_free : b ∈ V.free L ↔ b < L.size ∧ ¬V.used b := by
  simp only [free, Finset.mem_filter, Finset.mem_range]

lemma BBLOCK_mem_touched : L.BBLOCK 0 ∈ V.touched L d := Finset.mem_insert_self _ _

lemma IBLOCK_mem_touched : L.IBLOCK d.inum ∈ V.touched L d :=
  Finset.mem_insert_of_mem (Finset.mem_insert_self _ _)

lemma mem_touched (hslot : slot ∈ d.slots) (hb : V.ref L (d.inum, slot) = some b) :
    b ∈ V.touched L d := by
  refine Finset.mem_insert_of_mem (Finset.mem_insert_of_mem ?_)
  exact Finset.mem_biUnion.mpr ⟨slot, hslot, by simp [hb]⟩

lemma card_touched_le : (V.touched L d).card ≤ d.slots.card + 2 := by
  have hslots : (d.slots.biUnion fun slot => (V.ref L (d.inum, slot)).toFinset).card ≤
      d.slots.card * 1 := by
    apply Finset.card_biUnion_le_card_mul
    intro slot _
    cases V.ref L (d.inum, slot) <;> simp
  have hone := Finset.card_insert_le (L.IBLOCK d.inum)
    (d.slots.biUnion fun slot => (V.ref L (d.inum, slot)).toFinset)
  have htwo := Finset.card_insert_le (L.BBLOCK 0) (insert (L.IBLOCK d.inum)
    (d.slots.biUnion fun slot => (V.ref L (d.inum, slot)).toFinset))
  unfold touched
  omega

lemma Grows.touched_subset (h : Grows L d.inum V W) : V.touched L d ⊆ W.touched L d := by
  refine Finset.insert_subset_insert _ (Finset.insert_subset_insert _ ?_)
  refine Finset.biUnion_mono fun slot _ => ?_
  intro b hb
  rw [Option.mem_toFinset] at hb ⊢
  exact h.ref _ b hb

end Volume

/-- There are free blocks for all that the write needs, and the log has room for all that it
records. -/
structure Supplied (L : Layout) (d : Demand) (V : Volume) (s : State) : Prop where
  size_le : L.size ≤ BPB
  nlog_le : LOGSIZE ≤ L.nlog
  room : d.lh.length + d.slots.card + 2 < LOGSIZE - 1
  logged : Logged d (V.touched L d) s
  free : (V.missing L d).card ≤ (V.free L).card

namespace Supplied

variable {L : Layout} {d : Demand} {V W : Volume} {s s' : State} {slot : Slot} {b : ℕ}

lemma touched_lt (h : Supplied L d V s) :
    d.lh.length + (V.touched L d).card < LOGSIZE - 1 :=
  lt_of_le_of_lt (Nat.add_le_add_left Volume.card_touched_le _) h.room

/-- There is one free map block. -/
lemma BBLOCK_mem (h : Supplied L d V s) (hb : b < L.size) : L.BBLOCK b ∈ V.touched L d := by
  have hdiv : b / BPB = 0 / BPB := by
    rw [Nat.div_eq_of_lt (lt_of_lt_of_le hb h.size_le), Nat.zero_div]
  have : L.BBLOCK b = L.BBLOCK 0 := by rw [Superblock.BBLOCK, hdiv, Superblock.BBLOCK]
  rw [this]
  exact Volume.BBLOCK_mem_touched

lemma exists_free (h : Supplied L d V s) (hslot : slot ∈ V.missing L d) :
    ∃ b < L.size, ¬V.used b := by
  have hpos : 0 < (V.free L).card := lt_of_lt_of_le (Finset.card_pos.mpr ⟨slot, hslot⟩) h.free
  obtain ⟨b, hb⟩ := Finset.card_pos.mp hpos
  exact ⟨b, Volume.mem_free.mp hb⟩

/-- The volume has changed, but neither which blocks are in use nor which the file has. -/
lemma congr (h : Supplied L d V s) (hlh : Logged d (V.touched L d) s')
    (href : ∀ slot, W.ref L (d.inum, slot) = V.ref L (d.inum, slot)) (hused : W.used = V.used) :
    Supplied L d W s' := by
  have htouched : W.touched L d = V.touched L d := by simp only [Volume.touched, href]
  have hmissing : W.missing L d = V.missing L d := by simp only [Volume.missing, href]
  have hfree : W.free L = V.free L := by
    ext b
    rw [Volume.mem_free, Volume.mem_free, hused]
  exact ⟨h.size_le, h.nlog_le, h.room, htouched ▸ hlh, by rw [hmissing, hfree]; exact h.free⟩

/-- A free block goes to a slot that had none. -/
lemma alloc (h : Supplied L d V s) (hlh : Logged d (insert b (V.touched L d)) s')
    (hslot : slot ∈ V.missing L d) (hgrows : Volume.Grows L d.inum V W)
    (hb : W.ref L (d.inum, slot) = some b) (hused : W.used = fun x => V.used x ∨ x = b) :
    Supplied L d W s' := by
  have hmem := (Volume.mem_missing.mp hslot).1
  refine ⟨h.size_le, h.nlog_le, h.room, hlh.mono ?_, ?_⟩
  · rw [Finset.insert_subset_iff]
    exact ⟨Volume.mem_touched hmem hb, hgrows.touched_subset⟩
  · have hmissing : W.missing L d ⊆ (V.missing L d).erase slot := by
      intro slot' hslot'
      obtain ⟨hmem', hnone⟩ := Volume.mem_missing.mp hslot'
      rw [Finset.mem_erase, Volume.mem_missing]
      refine ⟨?_, hmem', ?_⟩
      · rintro rfl
        rw [hb] at hnone
        cases hnone
      · by_contra hsome
        exact hgrows.mapped hsome hnone
    have hfree : (V.free L).erase b ⊆ W.free L := by
      intro x hx
      obtain ⟨hne, hx⟩ := Finset.mem_erase.mp hx
      obtain ⟨hlt, hunused⟩ := Volume.mem_free.mp hx
      rw [Volume.mem_free, hused]
      exact ⟨hlt, fun hor => hor.elim hunused hne⟩
    calc (W.missing L d).card ≤ ((V.missing L d).erase slot).card := Finset.card_le_card hmissing
      _ = (V.missing L d).card - 1 := Finset.card_erase_of_mem hslot
      _ ≤ (V.free L).card - 1 := Nat.sub_le_sub_right h.free 1
      _ ≤ ((V.free L).erase b).card := Finset.pred_card_le_card_erase
      _ ≤ (W.free L).card := Finset.card_le_card hfree

end Supplied

end Xv6.Fs
