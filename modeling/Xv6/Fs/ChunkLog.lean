import Xv6.Core.Ends
import Xv6.Fs.SharedOffset

/-!
# The log entries of a chunk

How many blocks one chunk of `filewrite` passes to `log_write`, on a disk with any number of blocks
of free map. They are the blocks that the file has in the slots of the chunk, the free map blocks of
those that it did not have before, and the inode block. This is so however the call ends.
-/

namespace Xv6.Fs

open Core Coroutine

namespace Volume

variable {L : Layout} {d : Demand} {V₀ V W : Volume} {slot : Slot} {b : ℕ}

/-- The blocks that the write `d` may have recorded when the volume, which was `V₀`, is `V`. -/
def booked (L : Layout) (d : Demand) (V₀ V : Volume) : Finset ℕ :=
  insert (L.IBLOCK d.inum)
    ((d.slots.biUnion fun slot => (V.ref L (d.inum, slot)).toFinset) ∪
      (V₀.missing L d).biUnion fun slot => ((V.ref L (d.inum, slot)).map L.BBLOCK).toFinset)

/-- The file keeps the blocks that it has. -/
def Keeps (L : Layout) (n : ℕ) (V W : Volume) : Prop :=
  ∀ slot b, V.ref L (n, slot) = some b → W.ref L (n, slot) = some b

lemma Keeps.refl {n : ℕ} : Keeps L n V V := fun _ _ h => h

lemma Keeps.trans {n : ℕ} {U : Volume} (h : Keeps L n V W) (h' : Keeps L n W U) : Keeps L n V U :=
  fun slot b hb => h' slot b (h slot b hb)

lemma Grows.keeps {n : ℕ} (h : Grows L n V W) : Keeps L n V W := fun _ _ hb => h.ref _ _ hb

lemma IBLOCK_mem_booked : L.IBLOCK d.inum ∈ booked L d V₀ V := Finset.mem_insert_self _ _

lemma mem_booked (hslot : slot ∈ d.slots) (hb : V.ref L (d.inum, slot) = some b) :
    b ∈ booked L d V₀ V := by
  refine Finset.mem_insert_of_mem (Finset.mem_union_left _ ?_)
  refine Finset.mem_biUnion.mpr ⟨slot, hslot, ?_⟩
  rw [hb]
  exact Finset.mem_singleton_self b

lemma BBLOCK_mem_booked (hslot : slot ∈ V₀.missing L d) (hb : V.ref L (d.inum, slot) = some b) :
    L.BBLOCK b ∈ booked L d V₀ V := by
  refine Finset.mem_insert_of_mem
    (Finset.mem_union_right _ (Finset.mem_biUnion.mpr ⟨slot, hslot, ?_⟩))
  rw [hb]
  exact Finset.mem_singleton_self _

lemma Keeps.booked_subset (h : Keeps L d.inum V W) : booked L d V₀ V ⊆ booked L d V₀ W := by
  intro b hb
  rcases Finset.mem_insert.mp hb with rfl | hb
  · exact IBLOCK_mem_booked
  rcases Finset.mem_union.mp hb with hb | hb
  · obtain ⟨slot, hslot, hb⟩ := Finset.mem_biUnion.mp hb
    exact mem_booked hslot (h slot b (Option.mem_toFinset.mp hb))
  · obtain ⟨slot, hslot, hb⟩ := Finset.mem_biUnion.mp hb
    obtain ⟨x, hx, rfl⟩ := Option.map_eq_some_iff.mp (Option.mem_toFinset.mp hb)
    exact BBLOCK_mem_booked hslot (h slot x hx)

/-- A slot without a block stands for no block. -/
lemma card_biUnion_toFinset_le (S : Finset Slot) (g : Slot → Option ℕ) :
    (S.biUnion fun slot => (g slot).toFinset).card + (S.filter fun slot => g slot = none).card
      ≤ S.card := by
  rw [Finset.card_filter]
  calc _ ≤ (∑ slot ∈ S, (g slot).toFinset.card) + ∑ slot ∈ S, (if g slot = none then 1 else 0) :=
        Nat.add_le_add_right Finset.card_biUnion_le _
    _ = ∑ slot ∈ S, ((g slot).toFinset.card + if g slot = none then 1 else 0) :=
        Finset.sum_add_distrib.symm
    _ = ∑ slot ∈ S, 1 := by
        refine Finset.sum_congr rfl fun slot _ => ?_
        cases g slot <;> simp
    _ = S.card := (Finset.card_eq_sum_ones S).symm

/-- Each slot accounts for one block, and for one of the free map if it had no block. -/
lemma Keeps.card_booked_le (h : Keeps L d.inum V₀ V) :
    (booked L d V₀ V).card + 2 * (V.missing L d).card
      ≤ d.slots.card + (V₀.missing L d).card + 1 := by
  have hblocks := card_biUnion_toFinset_le d.slots fun slot => V.ref L (d.inum, slot)
  have hmaps := card_biUnion_toFinset_le (V₀.missing L d)
    fun slot => (V.ref L (d.inum, slot)).map L.BBLOCK
  have hmissing : ((V₀.missing L d).filter
      fun slot => (V.ref L (d.inum, slot)).map L.BBLOCK = none) = V.missing L d := by
    ext slot
    simp only [missing, Finset.mem_filter, Option.map_eq_none_iff]
    constructor
    · exact fun hs => ⟨hs.1.1, hs.2⟩
    · rintro ⟨hs, hnone⟩
      refine ⟨⟨hs, ?_⟩, hnone⟩
      by_contra hsome
      obtain ⟨b, hb⟩ := Option.ne_none_iff_exists'.mp hsome
      rw [h slot b hb] at hnone
      cases hnone
  rw [hmissing] at hmaps
  have hunion := Finset.card_union_le
    (d.slots.biUnion fun slot => (V.ref L (d.inum, slot)).toFinset)
    ((V₀.missing L d).biUnion fun slot => ((V.ref L (d.inum, slot)).map L.BBLOCK).toFinset)
  have hinsert := Finset.card_insert_le (L.IBLOCK d.inum)
    ((d.slots.biUnion fun slot => (V.ref L (d.inum, slot)).toFinset) ∪
      (V₀.missing L d).biUnion fun slot => ((V.ref L (d.inum, slot)).map L.BBLOCK).toFinset)
  simp only [missing] at *
  rw [booked]
  simp only [missing]
  omega

end Volume

/-! ### The block allocator -/

/-- A call has failed when it had recorded `N` blocks at most; `log_write` has failed only because
the log was nearly full before. -/
def Stopped (L : Layout) (d : Demand) (N : ℕ) (e : Halt) (s : State) : Prop :=
  (∃ B : Finset ℕ, B.card ≤ N ∧ Logged d B s) ∧
    (e = .panic .tooBigTransaction →
      LOGSIZE ≤ d.lh.length + N ∨ L.nlog - 1 ≤ d.lh.length + N)

variable {L : Layout} {D : Set Iref} {d : Demand} {s : State} {V₀ V : Volume} {ip : Iref}
  {b k N : ℕ} {B : Finset ℕ}

section Commands

variable {E : Halt → State → Prop} {R : PUnit → State → Prop}

@[simp]
lemma ends_bread {Q : Block → State → Prop} : ends E (bread b) Q s ↔ Q (s.disk b) s := Iff.rfl

@[simp]
lemma ends_brelse : ends E (brelse b) R s ↔ R ⟨⟩ s := Iff.rfl

@[simp]
lemma ends_setData {f : Block → Block} : ends E (setData b f) R s ↔ R ⟨⟩ (s.setData b f) := Iff.rfl

@[simp]
lemma ends_setInode {f : Inode → Inode} : ends E (setInode ip f) R s ↔ R ⟨⟩ (s.setInode ip f) :=
  Iff.rfl

lemma ends_logWrite (h : Logged d B s) (hcard : (insert b B).card ≤ N)
    (hR : ∀ lh, Logged d (insert b B) { s with lh := lh } → R ⟨⟩ { s with lh := lh }) :
    ends (Stopped L d N) (logWrite L.toSuperblock b) R s := by
  have hle := Finset.card_le_card (Finset.subset_insert b B)
  have hlen := h.length_le
  simp only [logWrite, ends_bind, ends_pause, ends_get]
  apply ends_ite
  · intro hfull
    exact ⟨⟨B, hle.trans hcard, h⟩, fun _ => by omega⟩
  · intro _
    exact hR _ h.record

/-- A block that is recorded already costs nothing. -/
lemma ends_logWrite_of_mem (h : Logged d B s) (hcard : B.card ≤ N) (hb : b ∈ B)
    (hR : ∀ lh, Logged d B { s with lh := lh } → R ⟨⟩ { s with lh := lh }) :
    ends (Stopped L d N) (logWrite L.toSuperblock b) R s := by
  rw [← Finset.insert_eq_of_mem hb] at hR hcard
  exact ends_logWrite h hcard hR

end Commands

variable {Q : ℕ → State → Prop}

/-- The free map block and the new block are recorded. -/
lemma ends_balloc (h : Logged d B s) (hcard : B.card + 2 ≤ N)
    (hQ : ∀ b s', Logged d (insert b (insert (L.BBLOCK b) B)) s' → Q b s') :
    ends (Stopped L d N) (balloc L.toSuperblock) Q s := by
  have hfrom : ∀ bs : List ℕ, (∀ b ∈ bs, b % BPB = 0) →
      ends (Stopped L d N) (ballocFrom L.toSuperblock bs) Q s := by
    intro bs
    induction bs with
    | nil => exact fun _ => ⟨⟨B, by omega, h⟩, by simp⟩
    | cons b bs ih =>
      intro hbs
      simp only [ballocFrom, ends_bind, ends_bread]
      cases hbi : freeBit L.toSuperblock (s.disk (L.BBLOCK b)) b with
      | none => exact ih fun x hx => hbs x (List.mem_cons_of_mem b hx)
      | some bi =>
        obtain ⟨hlt, -, -⟩ := freeBit_eq_some hbi
        have hblock : L.BBLOCK (b + bi) = L.BBLOCK b := by
          have hdvd := Nat.dvd_of_mod_eq_zero (hbs b List.mem_cons_self)
          rw [Superblock.BBLOCK, Nat.add_div_of_dvd_right hdvd, Nat.div_eq_of_lt hlt, Nat.add_zero,
            Superblock.BBLOCK]
        have hmap := Finset.card_insert_le (L.BBLOCK b) B
        have hnew := Finset.card_insert_le (b + bi) (insert (L.BBLOCK b) B)
        simp only [ends_bind, ends_setData]
        apply ends_logWrite (s := s.setData (L.BBLOCK b) (·.setBit bi)) h (by omega)
        intro lh h₁
        simp only [ends_bind, ends_brelse, bzero, ends_bread, ends_setData]
        apply ends_logWrite (s := State.setData _ (b + bi) fun _ => Block.zero) h₁ (by omega)
        intro lh' h₂
        rw [← hblock] at h₂
        exact hQ (b + bi) _ h₂
  apply hfrom
  intro b hb
  obtain ⟨i, -, rfl⟩ := List.mem_map.mp hb
  exact Nat.mul_mod_left i BPB

/-! ### The blocks of a file -/

/-- The write `d` is in progress: the inode is in memory, the file has kept its blocks, and what is
recorded is accounted for. -/
structure Booking (L : Layout) (d : Demand) (ip : Iref) (V₀ : Volume) (s : State) (V : Volume) :
    Prop where
  loaded : Loaded L {ip} ip d.inum s V
  keeps : Volume.Keeps L d.inum V₀ V
  logged : Logged d (Volume.booked L d V₀ V) s

/-- As many blocks as the write may record. -/
def Volume.quota (L : Layout) (d : Demand) (V₀ : Volume) : ℕ :=
  d.slots.card + (V₀.missing L d).card + 1

namespace Booking

variable {slot : Slot}

lemma card_le (h : Booking L d ip V₀ s V) : (Volume.booked L d V₀ V).card ≤ V₀.quota L d := by
  have := h.keeps.card_booked_le
  rw [Volume.quota]
  omega

/-- While a slot has no block, two more may be recorded. -/
lemma card_add_two_le (h : Booking L d ip V₀ s V) (hslot : slot ∈ V.missing L d) :
    (Volume.booked L d V₀ V).card + 2 ≤ V₀.quota L d := by
  have := h.keeps.card_booked_le
  have := Finset.card_pos.mpr ⟨slot, hslot⟩
  rw [Volume.quota]
  omega

/-- The slot has got the block. -/
lemma alloc {s' : State} {W : Volume} (h : Booking L d ip V₀ s V) (hslot : slot ∈ V.missing L d)
    (hload : Loaded L {ip} ip d.inum s' W) (hgrows : Volume.Grows L d.inum V W)
    (href : W.ref L (d.inum, slot) = some b)
    (hlogged : Logged d (insert b (insert (L.BBLOCK b) (Volume.booked L d V₀ V))) s') :
    Booking L d ip V₀ s' W := by
  obtain ⟨hmem, hnone⟩ := Volume.mem_missing.mp hslot
  have hslot₀ : slot ∈ V₀.missing L d := by
    refine Volume.mem_missing.mpr ⟨hmem, ?_⟩
    by_contra hsome
    obtain ⟨x, hx⟩ := Option.ne_none_iff_exists'.mp hsome
    rw [h.keeps slot x hx] at hnone
    cases hnone
  refine ⟨hload, h.keeps.trans hgrows.keeps, hlogged.mono ?_⟩
  exact Finset.insert_subset (Volume.mem_booked hmem href)
    (Finset.insert_subset (Volume.BBLOCK_mem_booked hslot₀ href) hgrows.keeps.booked_subset)

/-- Nothing is recorded. -/
lemma of_grows {s' : State} {W : Volume} (h : Booking L d ip V₀ s V)
    (hload : Loaded L {ip} ip d.inum s' W) (hkeeps : Volume.Keeps L d.inum V W)
    (hlogged : Logged d (Volume.booked L d V₀ V) s') : Booking L d ip V₀ s' W :=
  ⟨hload, h.keeps.trans hkeeps, hlogged.mono hkeeps.booked_subset⟩

lemma setLh {lh : List ℕ} (h : Booking L d ip V₀ s V)
    (hlogged : Logged d (Volume.booked L d V₀ V) { s with lh := lh }) :
    Booking L d ip V₀ { s with lh := lh } V :=
  ⟨h.loaded.setLh lh, h.keeps, hlogged⟩

lemma ends_bmapAddr (h : Booking L d ip V₀ s V) (hk : k ≤ NDIRECT) (hslot : addrSlot k ∈ d.slots)
    (hQ : ∀ b s' V', Booking L d ip V₀ s' V' → V'.ref L (d.inum, addrSlot k) = some b → Q b s') :
    ends (Stopped L d (V₀.quota L d)) (bmapAddr L.toSuperblock ip k) Q s := by
  -- what happens to the volume is known, only the log is in question
  have hwp : wp (fun _ => True) (bmapAddr L.toSuperblock ip k) (fun b s' => ∃ V',
      Loaded L {ip} ip d.inum s' V' ∧ Volume.Grows L d.inum V V' ∧
        V'.ref L (d.inum, addrSlot k) = some b) s := by
    apply h.loaded.wp_bmapAddr (.inl ⟨trivial, trivial⟩) hk hslot
    intro b s' V' _ hload hgrows href _
    exact ⟨V', hload, hgrows, href⟩
  apply ends.of_wp hwp
  have haddr := Volume.ref_addrSlot h.loaded.allocated hk
  simp only [bmapAddr, ends_bind, ends_get, h.loaded.inode]
  apply ends_ite
  · intro hzero
    rw [hzero, nonzero_eq_none.mpr rfl] at haddr
    have hmissing := Volume.mem_missing.mpr ⟨hslot, haddr⟩
    rw [ends_bind]
    apply ends_balloc h.logged (h.card_add_two_le hmissing)
    rintro b s' hlogged ⟨V', hload, hgrows, href⟩
    exact hQ b _ V' (h.alloc hmissing hload hgrows href hlogged) href
  · rintro - ⟨V', hload, hgrows, href⟩
    exact hQ _ s V' (h.of_grows hload hgrows.keeps h.logged) href

lemma ends_bmap {bn : ℕ} (h : Booking L d ip V₀ s V) (hbn : bn < MAXFILE) (hcovers : d.Covers bn)
    (hQ : ∀ b s' V', Booking L d ip V₀ s' V' → V'.ref L (d.inum, fileSlot bn) = some b → Q b s') :
    ends (Stopped L d (V₀.quota L d)) (bmap L.toSuperblock ip bn) Q s := by
  obtain ⟨hslot, hindirect⟩ := hcovers
  unfold bmap
  apply ends_ite
  · intro hlt
    rw [fileSlot_eq_addrSlot hlt] at hslot hQ
    exact h.ends_bmapAddr hlt.le hslot hQ
  intro hge
  have hind : Slot.indirect ∈ d.slots := hindirect (Nat.not_lt.mp hge)
  have hj : bn - NDIRECT < NINDIRECT := by
    simp only [MAXFILE] at hbn
    omega
  rw [fileSlot_of_le (Nat.not_lt.mp hge)] at hslot hQ
  rw [if_pos hj, ends_bind]
  apply h.ends_bmapAddr le_rfl (addrSlot_NDIRECT ▸ hind)
  intro a s₁ V₁ h₁ ha
  rw [addrSlot_NDIRECT] at ha
  have hentry := h₁.loaded.ref_entry (j := bn - NDIRECT) ha
  simp only [ends_bind, ends_bread]
  apply ends_ite
  · intro hzero
    rw [hzero, nonzero_eq_none.mpr rfl] at hentry
    have hmissing := Volume.mem_missing.mpr ⟨hslot, hentry⟩
    have hsup : Exhaustible (fun _ => True) ∨ Supplied L d V₁ s₁ ∧ Slot.indirect ∈ V₁.missing L d :=
      .inl ⟨trivial, trivial⟩
    have hwp : wp (fun _ => True) (balloc L.toSuperblock) (fun b s' => ¬V₁.used b ∧ b < L.size ∧
        s'.itable = s₁.itable ∧ Rep L {ip} s' (V₁.mark b)) s₁ :=
      wp_balloc hsup h₁.loaded.rep h₁.loaded.ok
        fun b s' hb hlt hs hrep _ => ⟨hb, hlt, hs, hrep⟩
    rw [ends_bind]
    apply ends.of_wp hwp
    apply ends_balloc h₁.logged (h₁.card_add_two_le hmissing)
    rintro b s₂ hlogged ⟨hb, hlt, hs₂, hrep₂⟩
    obtain ⟨hok, hgrows, href⟩ := h₁.loaded.ok.alloc_entry ha hj hentry hb hlt
    have hrep := hrep₂.setData (h₁.loaded.ok.le_of_ref ha) (h₁.loaded.ok.lt_of_ref ha)
      (·.setWord (bn - NDIRECT) b)
    have h₂ : Booking L d ip V₀ (s₂.setData a (·.setWord (bn - NDIRECT) b))
        ((V₁.mark b).setEntry a (bn - NDIRECT) b) :=
      h₁.alloc hmissing (h₁.loaded.of_entries (State.entries_congr hs₂) hrep hok
        (hgrows.allocated_iff.mpr h₁.loaded.allocated)) hgrows href hlogged
    simp only [ends_bind, ends_setData]
    apply ends_logWrite_of_mem h₂.logged h₂.card_le
      (Volume.mem_booked hind (hgrows.ref _ _ ha))
    exact fun lh hlh => hQ b _ _ (h₂.setLh hlh) href
  · intro hzero
    refine hQ _ s₁ V₁ h₁ ?_
    rw [hentry]
    exact nonzero_eq_some.mpr ⟨rfl, hzero⟩

/-- Bytes are copied into one block of the file. -/
lemma ends_writeBlock {off c : ℕ} {g : ℕ → UInt8} (h : Booking L d ip V₀ s V)
    (hoff : off < MAXFILE * BSIZE) (hcovers : d.Covers (off / BSIZE))
    (hQ : ∀ b s' V', Booking L d ip V₀ s' V' → b ∈ Volume.booked L d V₀ V' → Q b s') :
    ends (Stopped L d (V₀.quota L d)) (writeBlock L.toSuperblock ip off c g) Q s := by
  simp only [writeBlock, ends_bind]
  apply h.ends_bmap (div_BSIZE_lt hoff) hcovers
  intro b s₁ V₁ h₁ hb
  have href : (V₁.write b ((V₁.data b).patch (off % BSIZE) c g)).ref L = V₁.ref L :=
    Volume.ref_write h₁.loaded.ok hb
  have hkeeps : Volume.Keeps L d.inum V₁ (V₁.write b ((V₁.data b).patch (off % BSIZE) c g)) := by
    intro slot x hx
    rw [href, hx]
  have hload : Loaded L {ip} ip d.inum (s₁.setData b (·.patch (off % BSIZE) c g))
      (V₁.write b ((V₁.data b).patch (off % BSIZE) c g)) :=
    h₁.loaded.of_entries rfl (h₁.loaded.rep.setData (h₁.loaded.ok.le_of_ref hb)
      (h₁.loaded.ok.lt_of_ref hb) _) (h₁.loaded.ok.write hb) h₁.loaded.allocated
  simp only [ends_bind, ends_bread, ends_setData, ends_pure]
  refine hQ b _ _ (h₁.of_grows hload hkeeps h₁.logged) (Volume.mem_booked hcovers.1 ?_)
  rw [href, hb]

/-- The rounds of `writei`. -/
lemma ends_writeLoop {Q : ℕ × ℕ → State → Prop} {src : Source} {m fuel tot off : ℕ}
    (h : Booking L d ip V₀ s V) (hoff : off + (m - tot) ≤ MAXFILE * BSIZE)
    (hslots : ∀ bn, off / BSIZE ≤ bn → bn * BSIZE < off + (m - tot) → d.Covers bn)
    (hQ : ∀ r s' V', Booking L d ip V₀ s' V' → Q r s') :
    ends (Stopped L d (V₀.quota L d)) (writeLoop L.toSuperblock ip src m fuel tot off) Q s := by
  induction fuel generalizing tot off s V with
  | zero => exact hQ _ s V h
  | succ fuel ih =>
    unfold writeLoop
    apply ends_ite
    swap
    · exact fun _ => hQ _ s V h
    intro hlt
    have hdiv := Nat.div_mul_le_self off BSIZE
    rw [ends_bind]
    apply h.ends_writeBlock (by omega) (hslots _ le_rfl (by omega))
    intro b s₁ V₁ h₁ hb
    apply ends_ite
    · exact fun _ => hQ _ s₁ V₁ h₁
    intro _
    rw [ends_bind]
    apply ends_logWrite_of_mem h₁.logged h₁.card_le hb
    intro lh hlh
    simp only [ends_bind, ends_brelse]
    apply ih (h₁.setLh hlh) (by omega)
    intro bn hbn hbn'
    exact hslots bn ((Nat.div_le_div_right (Nat.le_add_right off _)).trans hbn) (by omega)

lemma ends_iupdate {Q : PUnit → State → Prop} (h : Logged d (Volume.booked L d V₀ V) s)
    (hcard : (Volume.booked L d V₀ V).card ≤ N) (hinum : (s.itable ip).inum = d.inum)
    (hQ : ∀ s', Logged d (Volume.booked L d V₀ V) s' → Q ⟨⟩ s') :
    ends (Stopped L d N) (iupdate L.toSuperblock ip) Q s := by
  simp only [iupdate, ends_bind, ends_get, ends_bread, ends_setData, hinum]
  apply ends_logWrite_of_mem (s := State.setData _ _ _) h hcard Volume.IBLOCK_mem_booked
  exact fun lh hlh => hQ _ hlh

end Booking

/-- The call records no more than its quota, however it ends. -/
lemma Loaded.ends_writei (src : Source) {off m : ℕ} (h : Loaded L ∅ ip d.inum s V)
    (hlogged : Logged d ∅ s)
    (hslots : ∀ bn, off / BSIZE ≤ bn → bn * BSIZE < off + m → d.Covers bn)
    (hmax : off + m ≤ MAXFILE * BSIZE) :
    ends (Stopped L d (V.quota L d)) (writei L.toSuperblock ip src off m)
      (fun _ s' => ∃ B : Finset ℕ, B.card ≤ V.quota L d ∧ Logged d B s') s := by
  have hempty : ∃ B : Finset ℕ, B.card ≤ V.quota L d ∧ Logged d B s :=
    ⟨∅, Nat.zero_le _, hlogged⟩
  have hbooking : Booking L d ip V s V :=
    ⟨h.mono (Set.empty_subset {ip}), .refl, hlogged.mono (Finset.empty_subset _)⟩
  simp only [writei, ends_bind, ends_get]
  apply ends_ite
  · exact fun _ => hempty
  intro _
  apply ends_ite
  · exact fun _ => hempty
  intro _
  rw [ends_bind]
  apply hbooking.ends_writeLoop (by omega) (by simpa using hslots)
  intro r s₁ V₁ h₁
  have hinum : ((s₁.setInode ip fun i =>
      { i with size := if i.size.toNat < r.2 then UInt32.ofNat r.2 else i.size }).itable ip).inum
        = d.inum := by
    rw [State.setInode_itable_self]
    exact h₁.loaded.inum
  simp only [ends_bind, ends_setInode]
  apply Booking.ends_iupdate (s := State.setInode _ _ _) h₁.logged h₁.card_le hinum
  exact fun s' hs' => ⟨_, h₁.card_le, hs'⟩

/-! ### The quota of a chunk -/

namespace Filewrite

variable {n off m : ℕ}

/-- The first block of a chunk that does not begin at a block boundary is there already. -/
lemma quota_le {lh : List ℕ} {outstanding : ℕ} (h : Loaded L D ip n s V)
    (hoff : off ≤ (V.files L n).size) (hm : m ≤ maxChunk) :
    V.quota L ⟨n, slots off m, lh, outstanding⟩ ≤ MAXOPBLOCKS := by
  have hsubset : V.missing L ⟨n, slots off m, lh, outstanding⟩ ⊆ slots off m :=
    Finset.filter_subset _ _
  rw [Volume.quota]
  by_cases halign : off % BSIZE = 0
  · have hcard : (slots off m).card ≤ 3 + 1 := by
      apply card_slots_le_of_blocks
      simp only [maxChunk, MAXOPBLOCKS, BSIZE] at hm halign ⊢
      omega
    have hmissing := Finset.card_le_card hsubset
    simp only [MAXOPBLOCKS]
    omega
  · have hcard := card_slots_le off hm
    have hlt : off / BSIZE * BSIZE < off := by
      have := Nat.div_add_mod' off BSIZE
      omega
    have hmapped : V.ref L (n, fileSlot (off / BSIZE)) ≠ none :=
      h.ok.mapped h.allocated (hlt.trans_le hoff)
    have hmem : fileSlot (off / BSIZE) ∈ slots off m := by
      refine Finset.mem_union_right _ (Finset.mem_image_of_mem _ (Finset.mem_filter.mpr ?_))
      have hsize : (V.files L n).size ≤ MAXFILE * BSIZE := h.ok.size_le h.allocated
      refine ⟨Finset.mem_range.mpr (div_BSIZE_lt ?_), le_rfl, by omega⟩
      simp only [MAXFILE, NDIRECT, NINDIRECT, BSIZE] at hsize halign ⊢
      omega
    have hssubset : V.missing L ⟨n, slots off m, lh, outstanding⟩ ⊂ slots off m := by
      refine ⟨hsubset, fun hall => ?_⟩
      exact hmapped (Volume.mem_missing.mp (hall hmem)).2
    have hmissing := Finset.card_lt_card hssubset
    simp only [MAXOPBLOCKS]
    omega

/-- For every sound file system, whatever the number of its free map blocks, every inode in memory,
every offset up to the size of the file and every length up to that of a chunk: however `writei`
ends, it has added at most `MAXOPBLOCKS` blocks to the log. It has added all those that it passed to
`log_write` and that were not there before, if there is room for more than so many. -/
theorem writei_logs_chunk (h : Loaded L ∅ ip n s V) (src : Source)
    (hoff : off ≤ (V.files L n).size) (hm : m ≤ maxChunk) (hmax : off + m ≤ MAXFILE * BSIZE) :
    (∃ added : List ℕ, ((writei L.toSuperblock ip src off m).stop s).2.lh = s.lh ++ added ∧
      added.Nodup ∧ added.length ≤ MAXOPBLOCKS) ∧
    (s.lh.length + MAXOPBLOCKS < LOGSIZE → s.lh.length + MAXOPBLOCKS < L.nlog - 1 →
      ((writei L.toSuperblock ip src off m).stop s).1 ≠ .error (.panic .tooBigTransaction)) := by
  have hquota : V.quota L ⟨n, slots off m, s.lh, s.outstanding⟩ ≤ MAXOPBLOCKS :=
    quota_le h hoff hm
  have hends := Loaded.ends_writei src (d := ⟨n, slots off m, s.lh, s.outstanding⟩) h
    ⟨rfl, [], (List.append_nil _).symm, List.nodup_nil, by simp⟩
    (fun bn hle hlt => covers_of_mem hle hlt hmax) hmax
  have hadded : ∀ {B : Finset ℕ} {s' : State}, B.card ≤ MAXOPBLOCKS →
      Logged ⟨n, slots off m, s.lh, s.outstanding⟩ B s' →
      ∃ added : List ℕ, s'.lh = s.lh ++ added ∧ added.Nodup ∧ added.length ≤ MAXOPBLOCKS := by
    rintro B s' hB ⟨-, added, hlh, hnodup, hsub⟩
    refine ⟨added, hlh, hnodup, le_trans ?_ hB⟩
    rw [← List.toFinset_card_of_nodup hnodup]
    exact Finset.card_le_card fun b hb => hsub b (List.mem_toFinset.mp hb)
  rcases hends.stop with ⟨r, hr, B, hB, hlogged⟩ | ⟨e, he, ⟨B, hB, hlogged⟩, hbig⟩
  · rw [hr]
    exact ⟨hadded (hB.trans hquota) hlogged, fun _ _ => by simp⟩
  · rw [he]
    refine ⟨hadded (hB.trans hquota) hlogged, fun hlog hnlog heq => ?_⟩
    have := hbig (Except.error.inj heq)
    simp only at this
    omega

/-- Three bytes are written to a new file: its block, the block of the free map and the inode block
are recorded. -/
theorem writei_logs_newFile : ∃ V : Volume, Loaded Layout.mkfs ∅ 0 1 newFile V ∧
    ((writei Layout.mkfs.toSuperblock 0 (fun _ => some 7) 0 3).stop newFile).2.lh.length
      = newFile.lh.length + 2 ∧
    (∃ added : List ℕ,
      ((writei Layout.mkfs.toSuperblock 0 (fun _ => some 7) 0 3).stop newFile).2.lh
        = newFile.lh ++ added ∧ added.Nodup ∧ added.length ≤ MAXOPBLOCKS) ∧
    (newFile.lh.length + MAXOPBLOCKS < LOGSIZE → newFile.lh.length + MAXOPBLOCKS < 29 →
      ((writei Layout.mkfs.toSuperblock 0 (fun _ => some 7) 0 3).stop newFile).1
        ≠ .error (.panic .tooBigTransaction)) := by
  have hload : Loaded Layout.mkfs ∅ 0 1 newFile (newFile.volume Layout.mkfs.toSuperblock) :=
    newFile_wellFormed.loaded (by decide +kernel) (by decide +kernel)
  exact ⟨_, hload, by decide +kernel,
    writei_logs_chunk hload _ (Nat.zero_le _) (by decide) (by decide)⟩

end Filewrite

end Xv6.Fs
