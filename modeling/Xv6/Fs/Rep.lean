import Xv6.Fs.Inode
import Xv6.Fs.Volume

/-!
# Volumes on disk

How a state of the kernel represents a volume: the bits of the free map are the blocks in use, and
an inode is what the inode table has in memory if it has been read, otherwise what is on disk. Each
way to change a block or an entry of the inode table is a change of the volume.
-/

namespace Xv6.Fs

open Core

/-- The entry is in use and has been read from disk. -/
def Entry.Live (i : Entry) : Prop := 0 < i.ref ∧ i.valid = true

instance (i : Entry) : Decidable i.Live := inferInstanceAs (Decidable (_ ∧ _))

section State

variable (sb : Superblock) (s : State)

/-- The bit of block `b` in the free map. -/
def State.marked (b : ℕ) : Bool := (s.disk (sb.BBLOCK b)).bit (b % BPB)

/-- The volume on disk. -/
def State.volume : Volume where
  inode := s.dinode sb
  data := s.disk
  used := fun b => b < sb.size ∧ s.marked sb b = true

end State

/-- The state `s` represents the volume `V`; the inodes in memory that `D` names may be newer than
those on disk. -/
structure Rep (L : Layout) (D : Set Iref) (s : State) (V : Volume) : Prop where
  used : ∀ b, V.used b ↔ b < L.size ∧ s.marked L.toSuperblock b = true
  data : ∀ b, L.nmeta ≤ b → b < L.size → s.disk b = V.data b
  inode : ∀ n < L.ninodes, (∀ ip ∈ D, (s.itable ip).inum ≠ n) →
    s.dinode L.toSuperblock n = V.inode n
  live : ∀ ip, (s.itable ip).Live → (s.itable ip).toDinode = V.inode (s.itable ip).inum
  type_ne : ∀ ip, (s.itable ip).Live → ip ∉ D → (V.inode (s.itable ip).inum).type ≠ 0
  inum_lt : ∀ ip, (s.itable ip).inum < L.ninodes
  /-- An inode has at most one entry in use. -/
  unique : ∀ ip ip', 0 < (s.itable ip).ref → 0 < (s.itable ip').ref →
    (s.itable ip).inum = (s.itable ip').inum → ip = ip'
  locked : ∀ ip, (s.itable ip).locked = true → (s.itable ip).Live

variable {L : Layout} {D : Set Iref} {s : State} {V : Volume} {ip : Iref} {b n : ℕ}

/-! ### Blocks and entries are separate -/

variable {s' : State}

section Update

variable {f : Block → Block} {g : Inode → Inode} {m : ℕ} {jp : Iref}

@[simp]
lemma State.setData_itable : (s.setData b f).itable = s.itable := rfl

@[simp]
lemma State.setInode_disk : (s.setInode ip g).disk = s.disk := rfl

lemma State.setData_disk_self : (s.setData b f).disk b = f (s.disk b) := by
  simp only [setData, Function.update_self]

lemma State.setData_disk_of_ne (hm : m ≠ b) : (s.setData b f).disk m = s.disk m := by
  simp only [setData, Function.update_of_ne hm]

@[simp]
lemma State.setInode_itable_self : (s.setInode ip g).itable ip = g (s.itable ip) := by
  simp only [setInode, Function.update_self]

lemma State.setInode_setInode {g' : Inode → Inode} :
    (s.setInode ip g).setInode ip g' = s.setInode ip (g' ∘ g) := by
  simp [setInode]

lemma State.setInode_itable_of_ne (hj : jp ≠ ip) : (s.setInode ip g).itable jp = s.itable jp := by
  simp only [setInode, Function.update_of_ne hj]

/-- The copy of an inode changes, but not its entry. -/
lemma State.entries_setInode (hg : ∀ i, (g i).toEntry = i.toEntry) :
    (s.setInode ip g).entries = s.entries := by
  funext jp
  rcases eq_or_ne jp ip with rfl | hjp
  · simp only [entries, setInode_itable_self, hg]
  · simp only [entries, setInode_itable_of_ne hjp]

lemma State.entries_congr (h : s'.itable = s.itable) : s'.entries = s.entries := by
  funext jp
  rw [entries, entries, h]

lemma State.live_congr (h : s'.entries = s.entries) : (s'.itable ip).Live ↔ (s.itable ip).Live := by
  show (s'.entries ip).Live ↔ (s.entries ip).Live
  rw [h]

lemma State.inum_congr (h : s'.entries = s.entries) :
    (s'.itable ip).inum = (s.itable ip).inum := congrArg Entry.inum (congrFun h ip)

lemma State.dinode_setInode : (s.setInode ip g).dinode L.toSuperblock = s.dinode L.toSuperblock :=
  rfl

/-- Blocks other than inode blocks hold no inodes. -/
lemma State.dinode_setData (hb : L.IBLOCK n ≠ b) :
    (s.setData b f).dinode L.toSuperblock n = s.dinode L.toSuperblock n := by
  rw [dinode, dinode, setData_disk_of_ne hb]

/-- Blocks other than those of the free map hold no bits. -/
lemma State.marked_setData (hb : L.BBLOCK n ≠ b) :
    (s.setData b f).marked L.toSuperblock n = s.marked L.toSuperblock n := by
  rw [marked, marked, setData_disk_of_ne hb]

end Update

namespace Rep

/-- The log does not matter. -/
lemma setLh (h : Rep L D s V) (lh : List ℕ) : Rep L D { s with lh := lh } V :=
  ⟨h.used, h.data, h.inode, h.live, h.type_ne, h.inum_lt, h.unique, h.locked⟩

lemma mono (h : Rep L D s V) {D' : Set Iref} (hD : D ⊆ D') : Rep L D' s V where
  used := h.used
  data := h.data
  inode n hn hne := h.inode n hn fun jp hjp => hne jp (hD hjp)
  live := h.live
  type_ne jp hlive hjp := h.type_ne jp hlive fun hmem => hjp (hD hmem)
  inum_lt := h.inum_lt
  unique := h.unique
  locked := h.locked

lemma allocated (h : Rep L D s V) (hlive : (s.itable ip).Live) (hD : ip ∉ D) :
    V.Allocated L (s.itable ip).inum :=
  ⟨h.inum_lt ip, h.type_ne ip hlive hD⟩

/-! ### Changes of blocks -/

/-- A change of blocks that leaves the inodes alone. -/
lemma of_disk {V' : Volume} (h : Rep L D s V) (hitable : s'.itable = s.itable)
    (hinode : V'.inode = V.inode)
    (hdinode : ∀ n < L.ninodes, s'.dinode L.toSuperblock n = s.dinode L.toSuperblock n)
    (hused : ∀ b, V'.used b ↔ b < L.size ∧ s'.marked L.toSuperblock b = true)
    (hdata : ∀ b, L.nmeta ≤ b → b < L.size → s'.disk b = V'.data b) : Rep L D s' V' where
  used := hused
  data := hdata
  inode n hn := by
    rw [hitable, hdinode n hn, hinode]
    exact h.inode n hn
  live := by
    rw [hitable, hinode]
    exact h.live
  type_ne := by
    rw [hitable, hinode]
    exact h.type_ne
  inum_lt := by
    rw [hitable]
    exact h.inum_lt
  unique := by
    rw [hitable]
    exact h.unique
  locked := by
    rw [hitable]
    exact h.locked

/-- A data block is written. -/
lemma setData (h : Rep L D s V) (hb : L.nmeta ≤ b) (hlt : b < L.size) (f : Block → Block) :
    Rep L D (s.setData b f) (V.write b (f (V.data b))) := by
  apply h.of_disk State.setData_itable Volume.write_inode
  · intro n hn
    exact State.dinode_setData (L.IBLOCK_ne hn hb)
  · intro x
    rw [Volume.write_used, h.used]
    by_cases hx : x < L.size
    · rw [State.marked_setData (L.BBLOCK_ne hx hb)]
    · simp [hx]
  · intro x hx hxlt
    rcases eq_or_ne x b with rfl | hne
    · rw [State.setData_disk_self, Volume.write_data_self, h.data x hx hxlt]
    · rw [State.setData_disk_of_ne hne, Volume.write_data_of_ne hne, h.data x hx hxlt]

/-- A bit of the free map changes. -/
lemma setBitmap (h : Rep L D s V) (hlt : b < L.size) {f : Block → Block} {used' : ℕ → Prop}
    (hself : ∀ x < L.size, L.BBLOCK x = L.BBLOCK b →
      (used' x ↔ (f (s.disk (L.BBLOCK b))).bit (x % BPB) = true))
    (hother : ∀ x, ¬(x < L.size ∧ L.BBLOCK x = L.BBLOCK b) → (used' x ↔ V.used x)) :
    Rep L D (s.setData (L.BBLOCK b) f) { V with used := used' } := by
  refine h.of_disk State.setData_itable ?_ ?_ ?_ ?_
  · rfl
  · intro n hn
    exact State.dinode_setData (L.IBLOCK_ne_BBLOCK hn)
  · intro x
    show used' x ↔ _
    by_cases hx : x < L.size ∧ L.BBLOCK x = L.BBLOCK b
    · rw [hself x hx.1 hx.2, State.marked, hx.2, State.setData_disk_self]
      simp [hx.1]
    · rw [hother x hx, h.used]
      by_cases hlt : x < L.size
      · rw [State.marked_setData fun heq => hx ⟨hlt, heq⟩]
      · simp [hlt]
  · intro x hx hxlt
    rw [State.setData_disk_of_ne (L.BBLOCK_ne hlt hx).symm, h.data x hx hxlt]

lemma bit_index_lt (b : ℕ) : b % BPB / 8 < BSIZE := by
  have : b % BPB < BPB := Nat.mod_lt _ (by decide)
  simp only [BPB] at this ⊢
  omega

/-- The bit of an unused block is set. -/
lemma setBit (h : Rep L D s V) (hlt : b < L.size) :
    Rep L D (s.setData (L.BBLOCK b) (·.setBit (b % BPB)))
      { V with used := fun x => V.used x ∨ x = b } := by
  apply h.setBitmap hlt
  · intro x hx hblock
    rw [Block.bit_setBit _ (bit_index_lt b), h.used, State.marked, hblock]
    simp [hx, L.mod_BPB_inj hblock]
  · intro x hx
    have hne : x ≠ b := by
      rintro rfl
      exact hx ⟨hlt, rfl⟩
    simp [hne]

/-- The bit of a block is cleared. -/
lemma clearBit (h : Rep L D s V) (hlt : b < L.size) :
    Rep L D (s.setData (L.BBLOCK b) (·.clearBit (b % BPB)))
      { V with used := fun x => V.used x ∧ x ≠ b } := by
  apply h.setBitmap hlt
  · intro x hx hblock
    rw [Block.bit_clearBit _ (bit_index_lt b), h.used, State.marked, hblock]
    simp [hx, L.mod_BPB_inj hblock]
  · intro x hx
    have hne : x ≠ b := by
      rintro rfl
      exact hx ⟨hlt, rfl⟩
    simp [hne]

/-- Inodes of different numbers are in different places. -/
lemma inode_place_inj {m : ℕ} (hblock : L.IBLOCK m = L.IBLOCK n) (hne : m ≠ n) :
    m % IPB ≠ n % IPB := by
  have hdiv : m / IPB = n / IPB := Nat.add_right_cancel hblock
  intro hmod
  apply hne
  rw [← Nat.div_add_mod m IPB, ← Nat.div_add_mod n IPB, hdiv, hmod]

/-- An inode on disk is assigned to: no other inode, bit or data block changes. -/
lemma dinode_setDinode {d : Dinode} {m : ℕ} :
    (s.setData (L.IBLOCK n) (·.setDinode (n % IPB) d)).dinode L.toSuperblock m
      = if m = n then d else s.dinode L.toSuperblock m := by
  split
  · next hm =>
    subst hm
    rw [State.dinode, State.setData_disk_self]
    exact Block.dinode_setDinode_self _ _ (Nat.mod_lt _ (by decide))
  · next hm =>
    by_cases hblock : L.IBLOCK m = L.IBLOCK n
    · rw [State.dinode, State.dinode, hblock, State.setData_disk_self]
      exact Block.dinode_setDinode_of_ne _ _ (inode_place_inj hblock hm)
    · exact State.dinode_setData hblock

/-- An inode on disk is assigned to, of which nothing newer is in memory. -/
lemma setDinode (h : Rep L D s V) (hn : n < L.ninodes) (d : Dinode)
    (hlive : ∀ ip, (s.itable ip).Live → (s.itable ip).inum ≠ n) :
    Rep L D (s.setData (L.IBLOCK n) (·.setDinode (n % IPB) d)) (V.setInode n d) where
  used x := by
    rw [Volume.setInode_used, h.used, State.marked_setData (L.IBLOCK_ne_BBLOCK hn).symm]
  data x hx hxlt := by
    rw [State.setData_disk_of_ne (L.IBLOCK_ne hn hx).symm, Volume.setInode_data, h.data x hx hxlt]
  inode m hm hD := by
    rw [dinode_setDinode]
    split
    · next heq =>
      subst heq
      exact Volume.setInode_inode_self.symm
    · next hne =>
      rw [Volume.setInode_inode_of_ne hne]
      exact h.inode m hm hD
  live ip hip := by
    rw [State.setData_itable, Volume.setInode_inode_of_ne (hlive ip hip)]
    exact h.live ip hip
  type_ne ip hip hD := by
    rw [State.setData_itable, Volume.setInode_inode_of_ne (hlive ip hip)]
    exact h.type_ne ip hip hD
  inum_lt := h.inum_lt
  unique := h.unique
  locked := h.locked

/-- An inode in memory is written to disk. -/
lemma iupdate (h : Rep L D s V) (hlive : (s.itable ip).Live) :
    Rep L D (s.setData (L.IBLOCK (s.itable ip).inum)
      (·.setDinode ((s.itable ip).inum % IPB) (s.itable ip).toDinode)) V where
  used x := by
    rw [h.used, State.marked_setData (L.IBLOCK_ne_BBLOCK (h.inum_lt ip)).symm]
  data x hx hxlt := by
    rw [State.setData_disk_of_ne (L.IBLOCK_ne (h.inum_lt ip) hx).symm, h.data x hx hxlt]
  inode m hm hD := by
    rw [dinode_setDinode]
    split
    · next heq =>
      subst heq
      exact h.live ip hlive
    · exact h.inode m hm hD
  live := h.live
  type_ne := h.type_ne
  inum_lt := h.inum_lt
  unique := h.unique
  locked := h.locked

/-- The only inode that was newer in memory is on disk again. -/
lemma clean (h : Rep L {ip} s V)
    (hdisk : s.dinode L.toSuperblock (s.itable ip).inum = V.inode (s.itable ip).inum)
    (htype : (V.inode (s.itable ip).inum).type ≠ 0) : Rep L ∅ s V where
  used := h.used
  data := h.data
  inode n hn _ := by
    by_cases heq : (s.itable ip).inum = n
    · rw [← heq]
      exact hdisk
    · apply h.inode n hn
      rintro jp rfl
      exact heq
  live := h.live
  type_ne jp hjp _ := by
    rcases eq_or_ne jp ip with rfl | hne
    · exact htype
    · exact h.type_ne jp hjp hne
  inum_lt := h.inum_lt
  unique := h.unique
  locked := h.locked

/-! ### Changes of entries of the inode table -/

variable {g : Inode → Inode}

/-- An entry changes so that it still agrees with the volume. -/
lemma setInode (h : Rep L ∅ s V) (hinum : (g (s.itable ip)).inum < L.ninodes)
    (hunique : 0 < (g (s.itable ip)).ref → ∀ jp, jp ≠ ip → 0 < (s.itable jp).ref →
      (s.itable jp).inum ≠ (g (s.itable ip)).inum)
    (hlive : (g (s.itable ip)).Live →
      (g (s.itable ip)).toDinode = V.inode (g (s.itable ip)).inum ∧
      (V.inode (g (s.itable ip)).inum).type ≠ 0)
    (hlocked : (g (s.itable ip)).locked = true → (g (s.itable ip)).Live) :
    Rep L ∅ (s.setInode ip g) V := by
  have hother : ∀ jp, jp ≠ ip → (s.setInode ip g).itable jp = s.itable jp :=
    fun jp hjp => State.setInode_itable_of_ne hjp
  refine ⟨h.used, h.data, fun n hn _ => h.inode n hn (by simp), ?_, ?_, ?_, ?_, ?_⟩
  · intro jp hjp
    rcases eq_or_ne jp ip with rfl | hne
    · rw [State.setInode_itable_self] at hjp ⊢
      exact (hlive hjp).1
    · rw [hother jp hne] at hjp ⊢
      exact h.live jp hjp
  · intro jp hjp _
    rcases eq_or_ne jp ip with rfl | hne
    · rw [State.setInode_itable_self] at hjp ⊢
      exact (hlive hjp).2
    · rw [hother jp hne] at hjp ⊢
      exact h.type_ne jp hjp (by simp)
  · intro jp
    rcases eq_or_ne jp ip with rfl | hne
    · rw [State.setInode_itable_self]
      exact hinum
    · rw [hother jp hne]
      exact h.inum_lt jp
  · intro jp kp
    rcases eq_or_ne jp ip with rfl | hj <;> rcases eq_or_ne kp jp with rfl | hk
    · exact fun _ _ _ => rfl
    · rw [State.setInode_itable_self, hother kp hk]
      intro hjref hkref heq
      exact absurd heq.symm (hunique hjref kp hk hkref)
    · exact fun _ _ _ => rfl
    · rcases eq_or_ne kp ip with rfl | hk'
      · rw [State.setInode_itable_self, hother jp hj]
        intro hjref hkref heq
        exact absurd heq (hunique hkref jp hj hjref)
      · rw [hother jp hj, hother kp hk']
        exact h.unique jp kp
  · intro jp
    rcases eq_or_ne jp ip with rfl | hne
    · rw [State.setInode_itable_self]
      exact hlocked
    · rw [hother jp hne]
      exact h.locked jp

/-- Fields of an inode change in memory only. -/
lemma setFields (h : Rep L {ip} s V) (hlive : (s.itable ip).Live)
    (hinum : (g (s.itable ip)).inum = (s.itable ip).inum)
    (href : (g (s.itable ip)).ref = (s.itable ip).ref)
    (hvalid : (g (s.itable ip)).valid = (s.itable ip).valid) :
    Rep L {ip} (s.setInode ip g) (V.setInode (s.itable ip).inum (g (s.itable ip)).toDinode) := by
  have hother : ∀ jp, jp ≠ ip → (s.setInode ip g).itable jp = s.itable jp :=
    fun jp hjp => State.setInode_itable_of_ne hjp
  -- no other entry in use has the same inode
  have hne : ∀ jp, jp ≠ ip → (s.itable jp).Live → (s.itable jp).inum ≠ (s.itable ip).inum := by
    intro jp hjp hjlive heq
    exact hjp (h.unique jp ip hjlive.1 hlive.1 heq)
  have hinum' : ∀ jp, ((s.setInode ip g).itable jp).inum = (s.itable jp).inum := by
    intro jp
    rcases eq_or_ne jp ip with rfl | hjp
    · rw [State.setInode_itable_self, hinum]
    · rw [hother jp hjp]
  have href' : ∀ jp, ((s.setInode ip g).itable jp).ref = (s.itable jp).ref := by
    intro jp
    rcases eq_or_ne jp ip with rfl | hjp
    · rw [State.setInode_itable_self, href]
    · rw [hother jp hjp]
  have hlive' : ((s.setInode ip g).itable ip).Live := by
    rw [State.setInode_itable_self, Entry.Live, href, hvalid]
    exact hlive
  refine ⟨h.used, h.data, ?_, ?_, ?_, ?_, ?_, ?_⟩
  · intro n hn hD
    have hn' : n ≠ (s.itable ip).inum := by
      rintro rfl
      exact hD ip rfl (hinum' ip)
    rw [Volume.setInode_inode_of_ne hn', State.dinode_setInode]
    apply h.inode n hn
    rintro jp rfl
    exact hn'.symm
  · intro jp hjp
    rw [hinum' jp]
    rcases eq_or_ne jp ip with rfl | hne'
    · rw [State.setInode_itable_self, Volume.setInode_inode_self]
    · rw [hother jp hne'] at hjp ⊢
      rw [Volume.setInode_inode_of_ne (hne jp hne' hjp)]
      exact h.live jp hjp
  · intro jp hjp hD
    have hne' : jp ≠ ip := hD
    rw [hother jp hne'] at hjp ⊢
    rw [Volume.setInode_inode_of_ne (hne jp hne' hjp)]
    exact h.type_ne jp hjp hD
  · intro jp
    rw [hinum']
    exact h.inum_lt jp
  · intro jp kp
    rw [href', href', hinum', hinum']
    exact h.unique jp kp
  · intro jp hjp
    rcases eq_or_ne jp ip with rfl | hne'
    · exact hlive'
    · rw [hother jp hne'] at hjp ⊢
      exact h.locked jp hjp

/-- An inode leaves the memory: from now on the one on disk counts. -/
lemma retire (h : Rep L {ip} s V)
    (hdisk : s.dinode L.toSuperblock (s.itable ip).inum = V.inode (s.itable ip).inum)
    (hinum : (g (s.itable ip)).inum = (s.itable ip).inum)
    (href : (g (s.itable ip)).ref = (s.itable ip).ref) (hvalid : (g (s.itable ip)).valid = false)
    (hlocked : (g (s.itable ip)).locked = false) : Rep L ∅ (s.setInode ip g) V := by
  have hother : ∀ jp, jp ≠ ip → (s.setInode ip g).itable jp = s.itable jp :=
    fun jp hjp => State.setInode_itable_of_ne hjp
  have hdead : ¬((s.setInode ip g).itable ip).Live := by
    rw [State.setInode_itable_self, Entry.Live, hvalid]
    simp
  have hlive : ∀ jp, ((s.setInode ip g).itable jp).Live → jp ≠ ip := by
    rintro jp hjp rfl
    exact hdead hjp
  have hinum' : ∀ jp, ((s.setInode ip g).itable jp).inum = (s.itable jp).inum := by
    intro jp
    rcases eq_or_ne jp ip with rfl | hjp
    · rw [State.setInode_itable_self, hinum]
    · rw [hother jp hjp]
  have href' : ∀ jp, ((s.setInode ip g).itable jp).ref = (s.itable jp).ref := by
    intro jp
    rcases eq_or_ne jp ip with rfl | hjp
    · rw [State.setInode_itable_self, href]
    · rw [hother jp hjp]
  refine ⟨h.used, h.data, ?_, ?_, ?_, ?_, ?_, ?_⟩
  · intro n hn _
    by_cases heq : (s.itable ip).inum = n
    · rw [State.dinode_setInode, ← heq]
      exact hdisk
    · apply h.inode n hn
      rintro jp rfl
      exact heq
  · intro jp hjp
    have hne := hother jp (hlive jp hjp)
    rw [hne] at hjp ⊢
    exact h.live jp hjp
  · intro jp hjp _
    have hip := hlive jp hjp
    rw [hother jp hip] at hjp ⊢
    exact h.type_ne jp hjp hip
  · intro jp
    rw [hinum']
    exact h.inum_lt jp
  · intro jp kp
    rw [href', href', hinum', hinum']
    exact h.unique jp kp
  · intro jp hjp
    have hip : jp ≠ ip := by
      rintro rfl
      rw [State.setInode_itable_self, hlocked] at hjp
      cases hjp
    rw [hother jp hip] at hjp ⊢
    exact h.locked jp hjp

/-! ### The volume on disk -/

lemma used_volume (h : Rep L ∅ s V) : (s.volume L.toSuperblock).used = V.used := by
  funext b
  exact propext (h.used b).symm

lemma inode_volume (h : Rep L ∅ s V) (hn : n < L.ninodes) :
    (s.volume L.toSuperblock).inode n = V.inode n := h.inode n hn (by simp)

lemma ref_volume (h : Rep L ∅ s V) (hok : V.Ok L) :
    (s.volume L.toSuperblock).ref L = V.ref L := by
  apply Volume.ref_congr
  · intro n
    apply and_congr_right
    intro hn
    rw [h.inode_volume hn]
  · intro n hn k _
    rw [h.inode_volume hn.1]
  · intro n b hb
    exact h.data b (hok.le_of_ref hb) (hok.lt_of_ref hb)

lemma content_volume (h : Rep L ∅ s V) (hok : V.Ok L) :
    (s.volume L.toSuperblock).content L n = V.content L n := by
  apply Volume.content_congr
  · intro bn
    rw [h.ref_volume hok]
  · intro bn b hb
    exact h.data b (hok.le_of_ref hb) (hok.lt_of_ref hb)

/-- While nothing is newer in memory, the volume that a state represents is the one on disk. -/
lemma volume_ok (h : Rep L ∅ s V) (hok : V.Ok L) : (s.volume L.toSuperblock).Ok L := by
  apply hok.congr h.used_volume (h.ref_volume hok)
  · intro n hn
    rw [h.inode_volume hn.1]
    apply hok.size_le
    rwa [Volume.Allocated, h.inode_volume hn.1] at hn
  · intro n bn hn hbn
    rw [h.inode_volume hn.1] at hbn
    apply hok.mapped _ hbn
    rwa [Volume.Allocated, h.inode_volume hn.1] at hn

lemma volume (h : Rep L ∅ s V) : Rep L ∅ s (s.volume L.toSuperblock) where
  used _ := Iff.rfl
  data _ _ _ := rfl
  inode _ _ _ := rfl
  live ip hip := by
    rw [h.inode_volume (h.inum_lt ip)]
    exact h.live ip hip
  type_ne ip hip := by
    rw [h.inode_volume (h.inum_lt ip)]
    exact h.type_ne ip hip
  inum_lt := h.inum_lt
  unique := h.unique
  locked := h.locked

end Rep

/-- A sound file system between the calls: the volume on disk is sound, and the copies of inodes in
memory agree with it. -/
structure State.WellFormed (L : Layout) (s : State) : Prop where
  ok : (s.volume L.toSuperblock).Ok L
  rep : Rep L ∅ s (s.volume L.toSuperblock)

lemma State.WellFormed.of_rep (h : Rep L ∅ s V) (hok : V.Ok L) : s.WellFormed L :=
  ⟨h.volume_ok hok, h.volume⟩

/-! ### A disk without files -/

/-- An empty disk with the layout of `mkfs`, and nothing in memory. -/
def State.blank : State where
  disk b := if b = Layout.mkfs.bmapstart then
      fun j => if j.val < 5 then 255 else if j.val = 5 then 63 else 0
    else Block.zero
  itable _ := { Dinode.zero with inum := 0, ref := 0, locked := false, valid := false }
  lh := []
  outstanding := 0

lemma State.blank_dinode (n : ℕ) (hn : n < NINODES) :
    State.blank.dinode Layout.mkfs.toSuperblock n = Dinode.zero := by
  have hne : Layout.mkfs.IBLOCK n ≠ Layout.mkfs.bmapstart := (Layout.mkfs.IBLOCK_lt hn).ne
  rw [State.dinode, State.blank]
  simp only [if_neg hne, Block.dinode_zero]

/-- All inodes are free, and only the blocks in front of the data are marked. -/
lemma State.ok_of_free (hzero : ∀ n < L.ninodes, (s.dinode L.toSuperblock n).type = 0)
    (hmarked : ∀ b < L.size, s.marked L.toSuperblock b = true ↔ b < L.nmeta) :
    (s.volume L.toSuperblock).Ok L := by
  have hfree : ∀ n, ¬(s.volume L.toSuperblock).Allocated L n := by
    rintro n ⟨hn, htype⟩
    exact htype (hzero n hn)
  refine ⟨fun hb => hb.1, ⟨?_, ?_, ?_⟩, fun hn => absurd hn (hfree _), fun hn =>
    absurd hn (hfree _)⟩
  · intro b
    constructor
    · rintro ⟨hb, hb'⟩
      exact .inl ((hmarked b hb).mp hb')
    · rintro (hb | ⟨⟨n, slot⟩, hr⟩)
      · have hlt : b < L.size := lt_of_lt_of_le hb (Nat.sub_le _ _)
        exact ⟨hlt, (hmarked b hlt).mpr hb⟩
      · rw [Volume.ref_of_not_allocated (hfree n)] at hr
        cases hr
  · rintro ⟨n, slot⟩ r' b hr
    rw [Volume.ref_of_not_allocated (hfree n)] at hr
    cases hr
  · rintro ⟨n, slot⟩ b hr
    rw [Volume.ref_of_not_allocated (hfree n)] at hr
    cases hr

lemma State.blank_ok : (State.blank.volume Layout.mkfs.toSuperblock).Ok Layout.mkfs := by
  apply State.ok_of_free
  · intro n hn
    rw [State.blank_dinode n hn]
    rfl
  · show ∀ b < FSSIZE, State.blank.marked Layout.mkfs.toSuperblock b = true
      ↔ b < Layout.mkfs.nmeta
    decide +kernel

end Xv6.Fs
