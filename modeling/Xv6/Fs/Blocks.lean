import Xv6.Fs.Files
import Xv6.Fs.Rep
import Xv6.Fs.Supply

/-!
# The blocks of a file

What the block allocator, `bmap` and `itrunc` do to the volume that a state represents, when they
run on their own. They return unless the disk or the log is full; those that a write uses return if
the supply is enough.
-/

namespace Xv6.Fs

open Core Coroutine

/-- Failures for want of room are allowed. -/
structure Exhaustible (F : Halt → Prop) : Prop where
  log : F (.panic .tooBigTransaction)
  blocks : F (.panic .outOfBlocks)

/-- Failures for want of room are allowed, or do not happen in the write `d`. -/
def Supply (L : Layout) (F : Halt → Prop) (d : Demand) (V : Volume) (s : State) : Prop :=
  Exhaustible F ∨ Supplied L d V s

variable {L : Layout} {F : Halt → Prop} {D : Set Iref} {s : State} {V : Volume} {ip : Iref}
  {b n k : ℕ} {d : Demand}

variable {sb : Superblock}

section Commands

variable {α : Type} {Q : α → State → Prop} {R : PUnit → State → Prop}

@[simp]
lemma wp_panic {p : Panic} : wp F (panic p) Q s ↔ F (.panic p) := Iff.rfl

@[simp]
lemma wp_sleep : wp F sleep Q s ↔ F .sleep := Iff.rfl

@[simp]
lemma wp_bread {Q : Block → State → Prop} : wp F (bread b) Q s ↔ Q (s.disk b) s := Iff.rfl

@[simp]
lemma wp_brelse : wp F (brelse b) R s ↔ R ⟨⟩ s := Iff.rfl

@[simp]
lemma wp_setData {f : Block → Block} : wp F (setData b f) R s ↔ R ⟨⟩ (s.setData b f) := Iff.rfl

@[simp]
lemma wp_setInode {f : Inode → Inode} : wp F (setInode ip f) R s ↔ R ⟨⟩ (s.setInode ip f) :=
  Iff.rfl

/-- Only the log changes. -/
lemma wp_logWrite (hF : Exhaustible F) (hR : ∀ lh, R ⟨⟩ { s with lh := lh }) :
    wp F (logWrite sb b) R s := by
  simp only [logWrite, wp_bind, wp_pause, wp_get]
  apply wp_ite
  · intro _
    exact hF.log
  · intro _
    exact hR _

/-- A block is recorded, if there is room. -/
lemma wp_logWrite_of_logged {B : Finset ℕ}
    (h : Exhaustible F ∨ LOGSIZE ≤ L.nlog ∧ d.lh.length + B.card < LOGSIZE - 1 ∧ Logged d B s)
    (hR : ∀ lh, Exhaustible F ∨ Logged d (insert b B) { s with lh := lh } →
      R ⟨⟩ { s with lh := lh }) :
    wp F (logWrite L.toSuperblock b) R s := by
  rcases h with hF | ⟨hnlog, hroom, hlogged⟩
  · exact wp_logWrite hF fun lh => hR lh (.inl hF)
  · have hlen := hlogged.length_le
    simp only [logWrite, wp_bind, wp_pause, wp_get]
    rw [if_neg (by omega)]
    exact hR _ (.inr hlogged.record)

/-- The write `d` records one of its blocks. -/
lemma Supply.wp_logWrite (h : Supply L F d V s) (hb : Supplied L d V s → b ∈ V.touched L d)
    (hR : ∀ lh, Supply L F d V { s with lh := lh } → R ⟨⟩ { s with lh := lh }) :
    wp F (logWrite L.toSuperblock b) R s := by
  rcases h with hF | h
  · exact Fs.wp_logWrite hF fun lh => hR lh (.inl hF)
  · refine wp_logWrite_of_logged (.inr ⟨h.nlog_le, h.touched_lt, h.logged⟩) ?_
    rintro lh (hF | hlogged)
    · exact hR lh (.inl hF)
    · rw [Finset.insert_eq_of_mem (hb h)] at hlogged
      exact hR lh (.inr ⟨h.size_le, h.nlog_le, h.room, hlogged, h.free⟩)

end Commands

/-! ### The block allocator -/

lemma freeBit_eq_some {blk : Block} {bi : ℕ} (h : freeBit sb blk b = some bi) :
    bi < BPB ∧ b + bi < sb.size ∧ blk.bit bi = false := by
  unfold freeBit at h
  have hmem := List.mem_of_find?_eq_some h
  have hpred := List.find?_some h
  rw [List.mem_range] at hmem
  simp only [Bool.and_eq_true, decide_eq_true_eq, Bool.not_eq_true'] at hpred
  exact ⟨hmem, hpred.1, hpred.2⟩

variable {Q : PUnit → State → Prop}

lemma wp_bzero {B : Finset ℕ}
    (hlog : Exhaustible F ∨ LOGSIZE ≤ L.nlog ∧ d.lh.length + B.card < LOGSIZE - 1 ∧ Logged d B s)
    (h : Rep L D s V) (hb : L.nmeta ≤ b) (hlt : b < L.size)
    (hQ : ∀ s', s'.itable = s.itable → Rep L D s' (V.write b Block.zero) →
      Exhaustible F ∨ Logged d (insert b B) s' → Q ⟨⟩ s') :
    wp F (bzero L.toSuperblock b) Q s := by
  simp only [bzero, wp_bind, wp_bread, wp_setData]
  apply wp_logWrite_of_logged (s := s.setData b fun _ => Block.zero) hlog
  intro lh hlh
  apply hQ
  · rfl
  · exact (h.setData hb hlt fun _ => Block.zero).setLh lh
  · exact hlh

/-- A free block is found by its bit. -/
lemma freeBit_ne_none {blk : Block} {x : ℕ} (hx : b + x < sb.size) (hlt : x < BPB)
    (hbit : blk.bit x = false) : freeBit sb blk b ≠ none := by
  unfold freeBit
  rw [Ne, List.find?_eq_none, not_forall]
  refine ⟨x, ?_⟩
  simp [List.mem_range.mpr hlt, hx, hbit]

lemma wp_ballocFrom {Q : ℕ → State → Prop} {bs : List ℕ}
    (hsup : Exhaustible F ∨ Supplied L d V s ∧
      ∃ b ∈ bs, freeBit L.toSuperblock (s.disk (L.BBLOCK b)) b ≠ none)
    (hbs : ∀ b ∈ bs, b % BPB = 0) (h : Rep L D s V) (hok : V.Ok L)
    (hQ : ∀ b s', ¬V.used b → b < L.size → s'.itable = s.itable → Rep L D s' (V.mark b) →
      Exhaustible F ∨ Supplied L d V s ∧ Logged d (insert b (V.touched L d)) s' → Q b s') :
    wp F (ballocFrom L.toSuperblock bs) Q s := by
  induction bs with
  | nil =>
    rcases hsup with hF | ⟨-, b, hb, -⟩
    · simpa only [ballocFrom, wp_panic] using hF.blocks
    · exact absurd hb List.not_mem_nil
  | cons b bs ih =>
    simp only [ballocFrom, wp_bind, wp_bread]
    cases hbi : freeBit L.toSuperblock (s.disk (L.BBLOCK b)) b with
    | none =>
      simp only [wp_bind, wp_brelse]
      refine ih (hsup.imp_right ?_) fun x hx => hbs x (List.mem_cons_of_mem _ hx)
      rintro ⟨hs, x, hx, hfree⟩
      rcases List.mem_cons.mp hx with rfl | hx
      · exact absurd hbi hfree
      · exact ⟨hs, x, hx, hfree⟩
    | some bi =>
      obtain ⟨hbi, hlt, hclear⟩ := freeBit_eq_some hbi
      have hb : b % BPB = 0 := hbs b List.mem_cons_self
      have hmod : (b + bi) % BPB = bi := by
        rw [Nat.add_mod, hb, Nat.zero_add, Nat.mod_mod, Nat.mod_eq_of_lt hbi]
      have hdiv : (b + bi) / BPB = b / BPB := by
        rw [Nat.add_div_of_dvd_right (Nat.dvd_of_mod_eq_zero hb), Nat.div_eq_of_lt hbi,
          Nat.add_zero]
      have hblock : L.BBLOCK (b + bi) = L.BBLOCK b := by rw [Superblock.BBLOCK, hdiv]; rfl
      have hunused : ¬V.used (b + bi) := by
        rw [h.used, State.marked, hblock, hmod, hclear]
        simp
      have hmark := h.setBit hlt
      rw [hblock, hmod] at hmark
      have hs : Supply L F d V s := hsup.imp_right And.left
      simp only [wp_bind, wp_setData]
      apply wp_logWrite_of_logged (s := s.setData (L.BBLOCK b) (·.setBit bi))
        (hs.imp_right fun hs => ⟨hs.nlog_le, hs.touched_lt, hs.logged⟩)
      intro lh hlh
      have hlog : Exhaustible F ∨ LOGSIZE ≤ L.nlog ∧
          d.lh.length + (V.touched L d).card < LOGSIZE - 1 ∧
          Logged d (V.touched L d) { s.setData (L.BBLOCK b) (·.setBit bi) with lh := lh } := by
        rcases hs with hF | hs
        · exact .inl hF
        · rw [Finset.insert_eq_of_mem (hblock ▸ hs.BBLOCK_mem hlt)] at hlh
          exact hlh.imp_right fun hlh => ⟨hs.nlog_le, hs.touched_lt, hlh⟩
      simp only [wp_bind, wp_brelse]
      apply wp_bzero hlog (hmark.setLh lh) (hok.le_of_not_used hunused) hlt
      intro s' hs' hrep hlogged
      apply hQ (b + bi) s' hunused hlt hs' hrep
      rcases hs with hF | hs
      · exact .inl hF
      · exact hlogged.imp_right fun hlogged => ⟨hs, hlogged⟩

/-- A block that was not in use is taken into use and zeroed. -/
lemma wp_balloc {Q : ℕ → State → Prop} {slot : Slot}
    (hsup : Exhaustible F ∨ Supplied L d V s ∧ slot ∈ V.missing L d) (h : Rep L D s V)
    (hok : V.Ok L)
    (hQ : ∀ b s', ¬V.used b → b < L.size → s'.itable = s.itable → Rep L D s' (V.mark b) →
      Exhaustible F ∨ Supplied L d V s ∧ Logged d (insert b (V.touched L d)) s' → Q b s') :
    wp F (balloc L.toSuperblock) Q s := by
  refine wp_ballocFrom (hsup.imp_right ?_) ?_ h hok hQ
  · rintro ⟨hs, hslot⟩
    obtain ⟨x, hx, hunused⟩ := hs.exists_free hslot
    have hmod : x % BPB < BPB := Nat.mod_lt x (by decide)
    have hsum : x / BPB * BPB + x % BPB = x := Nat.div_add_mod' x BPB
    have hblock : L.BBLOCK (x / BPB * BPB) = L.BBLOCK x := by
      rw [Superblock.BBLOCK, Nat.mul_div_cancel _ (by decide), Superblock.BBLOCK]
    have hbit : (s.disk (L.BBLOCK x)).bit (x % BPB) = false := by
      rw [h.used, not_and] at hunused
      simpa [State.marked] using hunused hx
    refine ⟨hs, x / BPB * BPB, List.mem_map.mpr ⟨x / BPB, List.mem_range.mpr ?_, rfl⟩, ?_⟩
    · rw [Nat.div_lt_iff_lt_mul (by decide)]
      have := Nat.div_add_mod' (L.size + BPB - 1) BPB
      have := Nat.mod_lt (L.size + BPB - 1) (show 0 < BPB by decide)
      omega
    · rw [hblock]
      exact freeBit_ne_none (hsum.symm ▸ hx) hmod hbit
  · intro b hb
    obtain ⟨i, -, rfl⟩ := List.mem_map.mp hb
    exact Nat.mul_mod_left i BPB

/-- A block in use is given back. -/
lemma wp_bfree (hF : Exhaustible F) (h : Rep L D s V) (hb : V.used b)
    (hQ : ∀ s', s'.itable = s.itable → Rep L D s' { V with used := fun x => V.used x ∧ x ≠ b } →
      Q ⟨⟩ s') : wp F (bfree L.toSuperblock b) Q s := by
  have hmarked := (h.used b).mp hb
  simp only [bfree, wp_bind, wp_bread]
  apply wp_ite
  · intro hbit
    rw [State.marked, hbit] at hmarked
    cases hmarked.2
  · intro _
    simp only [wp_bind, wp_setData]
    apply wp_logWrite hF
    intro lh
    apply hQ
    · rfl
    · exact (h.clearBit hmarked.1).setLh lh

/-! ### bmap -/

lemma fileSlot_eq_addrSlot {bn : ℕ} (h : bn < NDIRECT) : fileSlot bn = addrSlot bn := by
  rw [fileSlot_of_lt h, addrSlot, if_pos h]

lemma addrSlot_NDIRECT : addrSlot NDIRECT = .indirect := if_neg (lt_irrefl _)

/-- The inode `n` is in memory, at `ip`. -/
structure Loaded (L : Layout) (D : Set Iref) (ip : Iref) (n : ℕ) (s : State) (V : Volume) :
    Prop where
  rep : Rep L D s V
  ok : V.Ok L
  live : (s.itable ip).Live
  inum : (s.itable ip).inum = n
  allocated : V.Allocated L n

/-- An inode in memory, between the calls. -/
lemma State.WellFormed.loaded (h : s.WellFormed L) (hlive : (s.itable ip).Live)
    (hinum : (s.itable ip).inum = n) : Loaded L ∅ ip n s (s.volume L.toSuperblock) :=
  ⟨h.rep, h.ok, hlive, hinum, hinum ▸ h.rep.allocated hlive (Set.notMem_empty ip)⟩

namespace Loaded

lemma inode (h : Loaded L D ip n s V) : (s.itable ip).toDinode = V.inode n := by
  rw [h.rep.live ip h.live, h.inum]

/-- The volume or the copy of the inode has changed, but not the entries of the table. -/
lemma of_entries {s' : State} {V' : Volume} {D' : Set Iref} (h : Loaded L D ip n s V)
    (hs : s'.entries = s.entries) (hrep : Rep L D' s' V') (hok : V'.Ok L)
    (halloc : V'.Allocated L n) : Loaded L D' ip n s' V' where
  rep := hrep
  ok := hok
  live := (State.live_congr hs).mpr h.live
  inum := (State.inum_congr hs).trans h.inum
  allocated := halloc

lemma setLh (h : Loaded L D ip n s V) (lh : List ℕ) : Loaded L D ip n { s with lh := lh } V :=
  ⟨h.rep.setLh lh, h.ok, h.live, h.inum, h.allocated⟩

lemma mono {D' : Set Iref} (h : Loaded L D ip n s V) (hD : D ⊆ D') : Loaded L D' ip n s V :=
  ⟨h.rep.mono hD, h.ok, h.live, h.inum, h.allocated⟩

variable {Q : ℕ → State → Prop}

/-- `addrs[k]` gets a block if it has none. -/
lemma wp_bmapAddr (hsup : Supply L F d V s)
    (h : Loaded L {ip} ip d.inum s V) (hk : k ≤ NDIRECT) (hslot : addrSlot k ∈ d.slots)
    (hQ : ∀ b s' V', s'.entries = s.entries → Loaded L {ip} ip d.inum s' V' →
      Volume.Grows L d.inum V V' → V'.ref L (d.inum, addrSlot k) = some b →
      Supply L F d V' s' → Q b s') :
    wp F (bmapAddr L.toSuperblock ip k) Q s := by
  simp only [bmapAddr, wp_bind, wp_get, h.inode]
  apply wp_ite
  · intro ha
    have hmissing : addrSlot k ∈ V.missing L d := by
      refine Volume.mem_missing.mpr ⟨hslot, ?_⟩
      rw [Volume.ref_addrSlot h.allocated hk, ha, nonzero_eq_none]
    rw [wp_bind]
    apply wp_balloc (hsup.imp_right fun hs => ⟨hs, hmissing⟩) h.rep h.ok
    intro b s₁ hb hlt hs₁ hrep hlogged
    obtain ⟨hok, hgrows, href⟩ := h.ok.alloc_addr h.allocated hk ha hb hlt
    have hentries : (s₁.setInode ip fun i => { i with toDinode := i.setAddr k b }).entries
        = s.entries := by
      rw [State.entries_setInode, State.entries_congr hs₁]
      exact fun _ => rfl
    have hip : s₁.itable ip = s.itable ip := congrFun hs₁ ip
    have hlive : (s₁.itable ip).Live := by
      rw [hip]
      exact h.live
    have hfields := hrep.setFields (g := fun i => { i with toDinode := i.setAddr k b })
      hlive rfl rfl rfl
    rw [hip, h.inum] at hfields
    have hrep' : Rep L {ip} (s₁.setInode ip fun i => { i with toDinode := i.setAddr k b })
        ((V.mark b).assign d.inum k b) := by
      rw [Volume.assign,
        show (V.mark b).inode d.inum = (s.itable ip).toDinode from h.inode.symm]
      exact hfields
    simp only [wp_bind, wp_setInode, wp_pure]
    exact hQ b _ _ hentries
      (h.of_entries hentries hrep' hok (hgrows.allocated_iff.mpr h.allocated)) hgrows href
      (hlogged.imp_right fun hs => hs.1.alloc hs.2 hmissing hgrows href rfl)
  · intro ha
    refine hQ _ s V rfl h .refl ?_ hsup
    rw [Volume.ref_addrSlot h.allocated hk, nonzero_eq_some]
    exact ⟨rfl, ha⟩

/-- The entries of the indirect block. -/
lemma ref_entry {a j : ℕ} (h : Loaded L D ip n s V) (ha : V.ref L (n, .indirect) = some a) :
    V.ref L (n, .entry j) = nonzero ((s.disk a).word j) := by
  have haddr : (V.inode n).addr NDIRECT = a ∧ a ≠ 0 := by
    rw [Volume.ref_of_allocated h.allocated] at ha
    exact nonzero_eq_some.mp ha
  rw [h.rep.data a (h.ok.le_of_ref ha) (h.ok.lt_of_ref ha), Volume.ref_of_allocated h.allocated,
    Dinode.block, haddr.1, if_neg haddr.2]

/-- The `bn`-th block of a file, which gets one if it has none. -/
lemma wp_bmap {bn : ℕ} (hsup : Supply L F d V s)
    (h : Loaded L {ip} ip d.inum s V) (hbn : bn < MAXFILE) (hslot : fileSlot bn ∈ d.slots)
    (hindirect : NDIRECT ≤ bn → .indirect ∈ d.slots)
    (hQ : ∀ b s' V', s'.entries = s.entries → Loaded L {ip} ip d.inum s' V' →
      Volume.Grows L d.inum V V' → V'.ref L (d.inum, fileSlot bn) = some b →
      Supply L F d V' s' → Q b s') :
    wp F (bmap L.toSuperblock ip bn) Q s := by
  unfold bmap
  apply wp_ite
  · intro hlt
    rw [fileSlot_eq_addrSlot hlt] at hslot hQ
    exact h.wp_bmapAddr hsup hlt.le hslot hQ
  · intro hlt
    have hind : Slot.indirect ∈ d.slots := hindirect (Nat.not_lt.mp hlt)
    have hj : bn - NDIRECT < NINDIRECT := by
      simp only [MAXFILE] at hbn
      omega
    rw [fileSlot_of_le (Nat.not_lt.mp hlt)] at hslot hQ
    rw [if_pos hj, wp_bind]
    apply h.wp_bmapAddr hsup le_rfl (addrSlot_NDIRECT ▸ hind)
    intro a s₁ V₁ hs₁ h₁ hgrows₁ ha hsup₁
    rw [addrSlot_NDIRECT] at ha
    have hentry := h₁.ref_entry (j := bn - NDIRECT) ha
    simp only [wp_bind, wp_bread]
    apply wp_ite
    · intro hzero
      rw [hzero, nonzero_eq_none.mpr rfl] at hentry
      have hmissing := Volume.mem_missing.mpr ⟨hslot, hentry⟩
      rw [wp_bind]
      apply wp_balloc (hsup₁.imp_right fun hs => ⟨hs, hmissing⟩) h₁.rep h₁.ok
      intro b s₂ hb hlt₂ hs₂ hrep₂ hlogged
      obtain ⟨hok₂, hgrows₂, href⟩ := h₁.ok.alloc_entry ha hj hentry hb hlt₂
      have hsup₂ : Supply L F d ((V₁.mark b).setEntry a (bn - NDIRECT) b)
          (s₂.setData a (·.setWord (bn - NDIRECT) b)) :=
        hlogged.imp_right fun hs => hs.1.alloc hs.2 hmissing hgrows₂ href rfl
      have hrep := hrep₂.setData (h₁.ok.le_of_ref ha) (h₁.ok.lt_of_ref ha)
        (·.setWord (bn - NDIRECT) b)
      simp only [wp_bind, wp_setData]
      apply hsup₂.wp_logWrite fun _ => Volume.mem_touched hind (hgrows₂.ref _ _ ha)
      intro lh hsup₃
      have hentries := (State.entries_congr hs₂).trans hs₁
      exact hQ b _ _ hentries (h.of_entries hentries (hrep.setLh lh) hok₂
        (hgrows₂.allocated_iff.mpr h₁.allocated)) (hgrows₁.trans hgrows₂) href hsup₃
    · intro hzero
      simp only [wp_bind, wp_brelse, wp_pure]
      refine hQ _ s₁ V₁ hs₁ h₁ hgrows₁ ?_ hsup₁
      rw [hentry]
      exact nonzero_eq_some.mpr ⟨rfl, hzero⟩

/-- A block that the file has is found, and nothing changes. -/
lemma wp_bmap_of_ref {bn : ℕ} (h : Loaded L D ip n s V) (hbn : bn < MAXFILE)
    (href : V.ref L (n, fileSlot bn) = some b) (hQ : Q b s) :
    wp F (bmap L.toSuperblock ip bn) Q s := by
  have haddr : ∀ {k a : ℕ}, (V.inode n).addr k = a → a ≠ 0 →
      ∀ {Q : ℕ → State → Prop}, Q a s → wp F (bmapAddr L.toSuperblock ip k) Q s := by
    intro k a hk ha Q hQ
    simp only [bmapAddr, wp_bind, wp_get, h.inode, hk, if_neg ha, wp_pure]
    exact hQ
  unfold bmap
  apply wp_ite
  · intro hlt
    rw [fileSlot_eq_addrSlot hlt, Volume.ref_addrSlot h.allocated hlt.le] at href
    obtain ⟨hk, ha⟩ := nonzero_eq_some.mp href
    exact haddr hk ha hQ
  · intro hlt
    have hj : bn - NDIRECT < NINDIRECT := by
      simp only [MAXFILE] at hbn
      omega
    rw [fileSlot_of_le (Nat.not_lt.mp hlt)] at href
    have ha : (V.inode n).addr NDIRECT ≠ 0 := by
      intro ha
      rw [Volume.ref_of_allocated h.allocated, Dinode.block, if_pos ha] at href
      cases href
    rw [h.ref_entry (Volume.ref_indirect h.allocated ha)] at href
    obtain ⟨hword, hb⟩ := nonzero_eq_some.mp href
    rw [if_pos hj, wp_bind]
    apply haddr rfl ha
    simp only [wp_bind, wp_bread, hword, if_neg hb, wp_brelse, wp_pure]
    exact hQ

end Loaded

/-! ### iupdate -/

lemma Supply.wp_iupdate (hsup : Supply L F d V s)
    (hinum : (s.itable ip).inum = d.inum) (h : Rep L D s V) (hlive : (s.itable ip).Live)
    (hQ : ∀ s', s'.itable = s.itable → Rep L D s' V →
      s'.dinode L.toSuperblock (s.itable ip).inum = V.inode (s.itable ip).inum →
      Exhaustible F ∨ Logged d (V.touched L d) s' → Q ⟨⟩ s') :
    wp F (iupdate L.toSuperblock ip) Q s := by
  simp only [iupdate, wp_bind, wp_get, wp_bread, wp_setData]
  apply wp_logWrite_of_logged (s := s.setData _ _)
    (hsup.imp_right fun hs => ⟨hs.nlog_le, hs.touched_lt, hs.logged⟩)
  intro lh hlh
  apply hQ
  · rfl
  · exact (h.iupdate hlive).setLh lh
  · rw [← h.live ip hlive]
    exact Rep.dinode_setDinode.trans (if_pos rfl)
  · rwa [hinum, Finset.insert_eq_of_mem Volume.IBLOCK_mem_touched] at hlh

lemma wp_iupdate (hF : Exhaustible F) (h : Rep L D s V)
    (hlive : (s.itable ip).Live)
    (hQ : ∀ s', s'.itable = s.itable → Rep L D s' V →
      s'.dinode L.toSuperblock (s.itable ip).inum = V.inode (s.itable ip).inum → Q ⟨⟩ s') :
    wp F (iupdate L.toSuperblock ip) Q s :=
  Supply.wp_iupdate (d := ⟨(s.itable ip).inum, ∅, [], 0⟩) (.inl hF) rfl h hlive
    fun s' hs' hrep hdisk _ => hQ s' hs' hrep hdisk

/-- The inode on disk is the one in memory again. -/
lemma Loaded.wp_iupdate_of_supply (hsup : Supply L F d V s)
    (h : Loaded L {ip} ip d.inum s V)
    (hQ : ∀ s', s'.itable = s.itable → Loaded L ∅ ip d.inum s' V →
      Exhaustible F ∨ Logged d (V.touched L d) s' → Q ⟨⟩ s') :
    wp F (iupdate L.toSuperblock ip) Q s := by
  apply hsup.wp_iupdate h.inum h.rep h.live
  intro s' hs' hrep hdisk hlogged
  have htype : (V.inode (s.itable ip).inum).type ≠ 0 := by
    rw [h.inum]
    exact h.allocated.2
  rw [← hs'] at hdisk htype
  exact hQ s' hs' (h.of_entries (State.entries_congr hs') (hrep.clean hdisk htype) h.ok h.allocated)
    hlogged

lemma Loaded.wp_iupdate (hF : Exhaustible F) (h : Loaded L {ip} ip n s V)
    (hQ : ∀ s', s'.itable = s.itable → Loaded L ∅ ip n s' V → Q ⟨⟩ s') :
    wp F (iupdate L.toSuperblock ip) Q s :=
  Loaded.wp_iupdate_of_supply (d := ⟨n, ∅, [], 0⟩) (.inl hF) h fun s' hs' h' _ => hQ s' hs' h'

/-! ### itrunc -/

/-- The volume `V` when the blocks in the slots `P` of `n` are given back and the inode is `d`. -/
def Volume.drain (L : Layout) (V : Volume) (n : ℕ) (P : Set Slot) (d : Dinode) : Volume where
  inode := Function.update V.inode n d
  data := V.data
  used := fun x => V.used x ∧ ∀ slot ∈ P, V.ref L (n, slot) ≠ some x

namespace Volume

variable {P : Set Slot} {d : Dinode} {slot : Slot}

lemma drain_inode_self : (V.drain L n P d).inode n = d := by
  simp only [drain, Function.update_self]

lemma setInode_drain (d' : Dinode) : (V.drain L n P d).setInode n d' = V.drain L n P d' := by
  simp only [setInode, drain, Function.update_idem]

/-- A slot without a block has nothing to give back. -/
lemma drain_insert_of_none (hr : V.ref L (n, slot) = none) :
    V.drain L n (insert slot P) d = V.drain L n P d := by
  simp [drain, hr]

lemma drain_insert_of_some (hr : V.ref L (n, slot) = some b) :
    { V.drain L n P d with used := fun x => (V.drain L n P d).used x ∧ x ≠ b }
      = V.drain L n (insert slot P) d := by
  simp only [drain, Set.mem_insert_iff, forall_eq_or_imp, hr, ne_eq, Option.some.injEq, mk.injEq,
    true_and]
  funext x
  rw [eq_comm (a := b)]
  exact propext ⟨fun h => ⟨h.1.1, h.2, h.1.2⟩, fun h => ⟨⟨h.1, h.2.2⟩, h.2.1⟩⟩

/-- The block of a slot that is not given back yet is in use. -/
lemma Ok.drain_used (h : V.Ok L) (hr : V.ref L (n, slot) = some b) (hslot : slot ∉ P) :
    (V.drain L n P d).used b := by
  refine ⟨h.exact.used_of_ref hr, ?_⟩
  intro slot' hslot' hr'
  obtain rfl : slot' = slot := congrArg Prod.snd (h.exact.inj hr' hr)
  exact hslot hslot'

/-- All blocks are given back. -/
lemma drain_eq_truncate (hP : ∀ slot, V.ref L (n, slot) ≠ none → slot ∈ P) :
    V.drain L n P (V.inode n).clear = V.truncate L n := by
  simp only [drain, truncate, mk.injEq, true_and]
  funext x
  refine propext (and_congr_right fun _ => ⟨fun h slot hr => ?_, fun h slot _ => h slot⟩)
  exact h slot (hP slot (by simp [hr])) hr

end Volume

lemma Dinode.eq_clear {d d' : Dinode} (haddr : ∀ i ≤ NDIRECT, d.addr i = 0)
    (hd : d = { d' with addrs := d.addrs }) : { d with size := 0 } = d'.clear := by
  have haddrs : d.addrs = fun _ => 0 := by
    funext i
    have hi := haddr i (Nat.lt_succ_iff.mp i.isLt)
    rw [Dinode.addr, dif_pos i.isLt] at hi
    exact UInt32.toNat_inj.mp hi
  rw [hd, haddrs]
  rfl

/-- The blocks in the slots `P` of the inode `n` at `ip` are given back, among them those of the
first `k` addresses; `e` are the entries of the inode table. -/
structure Drained (L : Layout) (V : Volume) (ip : Iref) (n : ℕ) (e : Iref → Entry) (k : ℕ)
    (P : Set Slot) (s : State) : Prop where
  entries : s.entries = e
  live : (s.itable ip).Live
  inum : (s.itable ip).inum = n
  rep : ∃ d : Dinode, Rep L {ip} s (V.drain L n P d) ∧
    (∀ i, d.addr i = if i < k then 0 else (V.inode n).addr i) ∧
    d = { V.inode n with addrs := d.addrs }

namespace Drained

variable {e : Iref → Entry} {P : Set Slot} {slot : Slot}

/-- The volume or the copy of the inode has changed, but not the entries of the table. -/
lemma of_entries {s' : State} {k' : ℕ} {P' : Set Slot} (h : Drained L V ip n e k P s)
    (hs : s'.entries = s.entries)
    (hrep : ∃ d : Dinode, Rep L {ip} s' (V.drain L n P' d) ∧
      (∀ i, d.addr i = if i < k' then 0 else (V.inode n).addr i) ∧
      d = { V.inode n with addrs := d.addrs }) : Drained L V ip n e k' P' s' where
  entries := hs.trans h.entries
  live := (State.live_congr hs).mpr h.live
  inum := (State.inum_congr hs).trans h.inum
  rep := hrep

/-- The next address is still there. -/
lemma addr_eq (h : Drained L V ip n e k P s) : (s.itable ip).addr k = (V.inode n).addr k := by
  obtain ⟨d, hrep, haddr, -⟩ := h.rep
  rw [hrep.live ip h.live, h.inum, Volume.drain_inode_self, haddr, if_neg (lt_irrefl k)]

/-- The block in the slot of the next address is given back and the address cleared. -/
lemma setAddr (h : Drained L V ip n e k P s) (hk : k ≤ NDIRECT) :
    Drained L V ip n e (k + 1) P
      (s.setInode ip fun i => { i with toDinode := i.setAddr k 0 }) := by
  obtain ⟨d, hrep, haddr, hd⟩ := h.rep
  have hinode : (s.itable ip).toDinode = d := by
    rw [hrep.live ip h.live, h.inum, Volume.drain_inode_self]
  have hfields := hrep.setFields (g := fun i => { i with toDinode := i.setAddr k 0 }) h.live rfl
    rfl rfl
  rw [h.inum, Volume.setInode_drain] at hfields
  refine h.of_entries (State.entries_setInode fun _ => rfl) ⟨d.setAddr k 0, ?_, ?_, ?_⟩
  · rw [← hinode]
    exact hfields
  · intro i
    rcases eq_or_ne i k with rfl | hi
    · rw [Dinode.addr_setAddr_self _ hk (by decide), if_pos (Nat.lt_succ_self i)]
    · rw [Dinode.addr_setAddr_of_ne _ _ hi, haddr]
      simp only [Nat.lt_succ_iff_lt_or_eq, hi, or_false]
  · conv_lhs => rw [hd]
    rfl

/-- An address that is 0 needs no clearing. -/
lemma succ_of_zero (h : Drained L V ip n e k P s) (ha : (V.inode n).addr k = 0) :
    Drained L V ip n e (k + 1) P s := by
  obtain ⟨d, hrep, haddr, hd⟩ := h.rep
  refine h.of_entries rfl ⟨d, hrep, ?_, hd⟩
  intro i
  rw [haddr]
  rcases eq_or_ne i k with rfl | hi
  · rw [if_neg (lt_irrefl i), if_pos (Nat.lt_succ_self i), ha]
  · simp only [Nat.lt_succ_iff_lt_or_eq, hi, or_false]

/-- A slot without a block has nothing to give back. -/
lemma insert_of_none (h : Drained L V ip n e k P s) (hr : V.ref L (n, slot) = none) :
    Drained L V ip n e k (insert slot P) s := by
  obtain ⟨d, hrep, haddr, hd⟩ := h.rep
  refine h.of_entries rfl ⟨d, ?_, haddr, hd⟩
  rw [Volume.drain_insert_of_none hr]
  exact hrep

/-- The block of a slot is given back. -/
lemma wp_bfree (hF : Exhaustible F) (hok : V.Ok L) (h : Drained L V ip n e k P s)
    (hr : V.ref L (n, slot) = some b) (hslot : slot ∉ P)
    (hQ : ∀ s', Drained L V ip n e k (insert slot P) s' → Q ⟨⟩ s') :
    wp F (bfree L.toSuperblock b) Q s := by
  obtain ⟨d, hrep, haddr, hd⟩ := h.rep
  apply Fs.wp_bfree hF hrep (hok.drain_used hr hslot)
  intro s' hs' hrep'
  rw [Volume.drain_insert_of_some hr] at hrep'
  exact hQ s' (h.of_entries (State.entries_congr hs') ⟨d, hrep', haddr, hd⟩)

lemma wp_itruncDirect (hF : Exhaustible F) (hok : V.Ok L) (hn : V.Allocated L n)
    (h : Drained L V ip n e k P s) (hk : k < NDIRECT) (hslot : .direct k ∉ P)
    (hQ : ∀ s', Drained L V ip n e (k + 1) (insert (.direct k) P) s' → Q ⟨⟩ s') :
    wp F (itruncDirect L.toSuperblock ip k) Q s := by
  have hr : V.ref L (n, .direct k) = nonzero ((V.inode n).addr k) := by
    rw [Volume.ref_of_allocated hn, Dinode.block, if_pos hk]
  simp only [itruncDirect, wp_bind, wp_get, h.addr_eq]
  apply wp_ite
  · intro ha
    rw [wp_bind]
    apply h.wp_bfree hF hok (hr.trans (nonzero_eq_some.mpr ⟨rfl, ha⟩)) hslot
    intro s' h'
    exact hQ _ (h'.setAddr hk.le)
  · intro ha
    have ha : (V.inode n).addr k = 0 := not_not.mp ha
    apply hQ
    exact (h.succ_of_zero ha).insert_of_none (hr.trans (nonzero_eq_none.mpr ha))

lemma wp_itruncEntry (hF : Exhaustible F) (hok : V.Ok L) (h : Drained L V ip n e k P s) {j : ℕ}
    {a : Block} (hr : V.ref L (n, .entry j) = nonzero (a.word j)) (hslot : .entry j ∉ P)
    (hQ : ∀ s', Drained L V ip n e k (insert (.entry j) P) s' → Q ⟨⟩ s') :
    wp F (itruncEntry L.toSuperblock a j) Q s := by
  unfold itruncEntry
  apply wp_ite
  · intro ha
    exact h.wp_bfree hF hok (hr.trans (nonzero_eq_some.mpr ⟨rfl, ha⟩)) hslot hQ
  · intro ha
    apply hQ
    exact h.insert_of_none (hr.trans (nonzero_eq_none.mpr (not_not.mp ha)))

/-- All the direct blocks are given back. -/
lemma wp_forM_itruncDirect (hF : Exhaustible F) (hok : V.Ok L) (hn : V.Allocated L n)
    (h : Drained L V ip n e 0 ∅ s)
    (hQ : ∀ s', Drained L V ip n e NDIRECT {slot | ∃ i < NDIRECT, slot = .direct i} s' → Q ⟨⟩ s') :
    wp F (forM (List.range NDIRECT) (itruncDirect L.toSuperblock ip)) Q s := by
  apply wp_forM_range fun k s => Drained L V ip n e k {slot | ∃ i < k, slot = .direct i} s
  · simpa using h
  · intro k hk s h
    apply h.wp_itruncDirect hF hok hn hk
    · simp
    · intro s' h'
      convert h' using 1
      ext slot
      simp only [Nat.lt_succ_iff_lt_or_eq, Set.mem_ofPred_eq, Set.mem_insert_iff]
      grind
  · exact hQ

/-- All the blocks in the indirect block are given back. -/
lemma wp_forM_itruncEntry (hF : Exhaustible F) (hok : V.Ok L) (h : Drained L V ip n e k P s)
    {a : Block} (hr : ∀ j, V.ref L (n, .entry j) = nonzero (a.word j))
    (hP : ∀ j, .entry j ∉ P)
    (hQ : ∀ s', Drained L V ip n e k (P ∪ {slot | ∃ j < NINDIRECT, slot = .entry j}) s' →
      Q ⟨⟩ s') :
    wp F (forM (List.range NINDIRECT) (itruncEntry L.toSuperblock a)) Q s := by
  apply wp_forM_range fun j s =>
    Drained L V ip n e k (P ∪ {slot | ∃ j' < j, slot = .entry j'}) s
  · simpa using h
  · intro j hj s h
    apply h.wp_itruncEntry hF hok (hr j)
    · simp [hP]
    · intro s' h'
      convert h' using 1
      ext slot
      simp only [Nat.lt_succ_iff_lt_or_eq, Set.mem_ofPred_eq, Set.mem_insert_iff, Set.mem_union]
      grind
  · exact hQ

/-- The indirect block and the blocks in it are given back, and then every block of the inode is. -/
lemma wp_itruncIndirect (hF : Exhaustible F) (hok : V.Ok L) (hn : V.Allocated L n)
    (h : Drained L V ip n e NDIRECT {slot | ∃ i < NDIRECT, slot = .direct i} s)
    (hQ : ∀ s' P, (∀ slot, V.ref L (n, slot) ≠ none → slot ∈ P) →
      Drained L V ip n e (NDIRECT + 1) P s' → Q ⟨⟩ s') :
    wp F (itruncIndirect L.toSuperblock ip) Q s := by
  have hdirect : ∀ i, V.ref L (n, .direct i) ≠ none → i < NDIRECT := by
    intro i hi
    by_contra hge
    rw [Volume.ref_of_allocated hn, Dinode.block, if_neg hge] at hi
    exact hi rfl
  have hind : V.ref L (n, .indirect) = nonzero ((V.inode n).addr NDIRECT) := by
    rw [Volume.ref_of_allocated hn, Dinode.block]
  simp only [itruncIndirect, wp_bind, wp_get, h.addr_eq]
  apply wp_ite
  · intro ha
    have hr : V.ref L (n, .indirect) = some ((V.inode n).addr NDIRECT) :=
      hind.trans (nonzero_eq_some.mpr ⟨rfl, ha⟩)
    have hdata : s.disk ((V.inode n).addr NDIRECT) = V.data ((V.inode n).addr NDIRECT) := by
      obtain ⟨d, hrep, -⟩ := h.rep
      exact hrep.data _ (hok.le_of_ref hr) (hok.lt_of_ref hr)
    simp only [wp_bind, wp_bread, hdata]
    apply h.wp_forM_itruncEntry hF hok
    · intro j
      rw [Volume.ref_of_allocated hn, Dinode.block, if_neg ha]
    · simp
    intro s₁ h₁
    simp only [wp_bind, wp_brelse]
    apply h₁.wp_bfree hF hok hr (by simp)
    intro s₂ h₂
    rw [wp_setInode]
    apply hQ _ _ _ (h₂.setAddr le_rfl)
    intro slot hslot
    cases slot with
    | direct i => exact .inr (.inl ⟨i, hdirect i hslot, rfl⟩)
    | indirect => exact .inl rfl
    | entry j =>
      refine .inr (.inr ⟨j, ?_, rfl⟩)
      by_contra hge
      rw [Volume.ref_of_allocated hn, Dinode.block, if_neg ha,
        Block.word_of_le _ (Nat.not_lt.mp hge)] at hslot
      exact hslot (nonzero_eq_none.mpr rfl)
  · intro ha
    have ha : (V.inode n).addr NDIRECT = 0 := not_not.mp ha
    apply hQ _ _ _ (h.succ_of_zero ha)
    intro slot hslot
    cases slot with
    | direct i => exact ⟨i, hdirect i hslot, rfl⟩
    | indirect => exact absurd (hind.trans (nonzero_eq_none.mpr ha)) hslot
    | entry j =>
      rw [Volume.ref_of_allocated hn, Dinode.block, if_pos ha] at hslot
      exact absurd rfl hslot

end Drained

/-- The file loses its content and all its blocks, those beyond its size too. -/
lemma Loaded.wp_itrunc (hF : Exhaustible F) (h : Loaded L {ip} ip n s V)
    (hQ : ∀ s', s'.entries = s.entries → Loaded L ∅ ip n s' (V.truncate L n) → Q ⟨⟩ s') :
    wp F (itrunc L.toSuperblock ip) Q s := by
  have hstart : Drained L V ip n s.entries 0 ∅ s := by
    refine ⟨rfl, h.live, h.inum, V.inode n, ?_, ?_, rfl⟩
    · simpa [Volume.drain] using h.rep
    · simp
  simp only [itrunc, wp_bind]
  apply hstart.wp_forM_itruncDirect hF h.ok h.allocated
  intro s₁ h₁
  rw [wp_bind]
  apply h₁.wp_itruncIndirect hF h.ok h.allocated
  intro s₂ P hP h₂
  obtain ⟨d, hrep, haddr, hd⟩ := h₂.rep
  have hinode : (s₂.itable ip).toDinode = d := by
    rw [hrep.live ip h₂.live, h₂.inum, Volume.drain_inode_self]
  have hclear : { d with size := 0 } = (V.inode n).clear := by
    apply Dinode.eq_clear _ hd
    intro i hi
    rw [haddr, if_pos (Nat.lt_succ_of_le hi)]
  have hfields := hrep.setFields (g := fun i => { i with size := 0 }) h₂.live rfl rfl rfl
  rw [h₂.inum, Volume.setInode_drain] at hfields
  have hrep' : Rep L {ip} (s₂.setInode ip fun i => { i with size := 0 }) (V.truncate L n) := by
    rw [← Volume.drain_eq_truncate hP, ← hclear, ← hinode]
    exact hfields
  have hentries : (s₂.setInode ip fun i => { i with size := 0 }).entries = s.entries := by
    rw [State.entries_setInode, h₂.entries]
    exact fun _ => rfl
  have h₃ : Loaded L {ip} ip n (s₂.setInode ip fun i => { i with size := 0 }) (V.truncate L n) :=
    h.of_entries hentries hrep' h.ok.truncate (Volume.allocated_truncate.mpr h.allocated)
  rw [wp_bind, wp_setInode]
  apply h₃.wp_iupdate hF
  intro s' hs' h'
  exact hQ s' ((State.entries_congr hs').trans hentries) h'

end Xv6.Fs
