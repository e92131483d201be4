import Mathlib.Data.Multiset.Count
import Xv6.Fs.Content

/-!
# References and locks

`Sound` says that a state holds certain files, and which references and locks on entries of the
inode table are out: every reference is counted, and every lock that is taken belongs to somebody.
The functions of the inode layer on their own, as changes of the files, references and locks.
-/

namespace Xv6.Fs

open Core Coroutine

/-- The references and locks that are out. A reference is an entry of the inode table together with
the inode number that it stands for. -/
structure Handles where
  refs : Multiset (Iref × ℕ)
  held : Finset Iref

namespace Handles

variable (H : Handles) (ip : Iref) (n : ℕ)

/-- How many references to an entry are out. -/
def count : ℕ := H.refs.countP (·.1 = ip)

/-- One more reference. -/
def get : Handles := { H with refs := (ip, n) ::ₘ H.refs }

def lock : Handles := { H with held := insert ip H.held }

def unlock : Handles := { H with held := H.held.erase ip }

variable {H ip n} {jp : Iref} {m : ℕ}

@[simp]
lemma get_held : (H.get ip n).held = H.held := rfl

@[simp]
lemma count_lock : (H.lock ip).count jp = H.count jp := rfl

@[simp]
lemma mem_get : (jp, m) ∈ (H.get ip n).refs ↔ jp = ip ∧ m = n ∨ (jp, m) ∈ H.refs := by
  simp [get]

lemma mem_get_self : (ip, n) ∈ (H.get ip n).refs := mem_get.mpr (.inl ⟨rfl, rfl⟩)

@[simp]
lemma mem_lock_held : jp ∈ (H.lock ip).held ↔ jp = ip ∨ jp ∈ H.held := Finset.mem_insert

lemma mem_lock_self : ip ∈ (H.lock ip).held := mem_lock_held.mpr (.inl rfl)

@[simp]
lemma mem_unlock_held : jp ∈ (H.unlock ip).held ↔ jp ≠ ip ∧ jp ∈ H.held := Finset.mem_erase

@[simp]
lemma count_get_self : (H.get ip n).count ip = H.count ip + 1 := by
  exact Multiset.countP_cons_of_pos _ rfl

lemma count_get_of_ne (h : jp ≠ ip) : (H.get ip n).count jp = H.count jp := by
  exact Multiset.countP_cons_of_neg _ h.symm

lemma count_pos (h : (ip, n) ∈ H.refs) : 0 < H.count ip :=
  Multiset.countP_pos.mpr ⟨(ip, n), h, rfl⟩

lemma exists_mem_of_count_pos (h : 0 < H.count ip) : ∃ n, (ip, n) ∈ H.refs := by
  obtain ⟨⟨jp, n⟩, hmem, rfl⟩ := Multiset.countP_pos.mp h
  exact ⟨n, hmem⟩

/-- Unlocking what was locked. -/
lemma unlock_lock (h : ip ∉ H.held) : (H.lock ip).unlock ip = H := by
  simp only [unlock, lock, Finset.erase_insert h]

lemma get_comm : (H.get ip n).get jp m = (H.get jp m).get ip n := by
  simp only [get, Multiset.cons_swap]

/-- A reference below a locked one. -/
lemma lock_get_comm : ((H.get ip n).lock ip).get jp m = ((H.get jp m).get ip n).lock ip := by
  simp only [get, lock, Multiset.cons_swap]

/-- Two locked references in the other order. -/
lemma lock_lock_comm :
    (((H.get ip n).lock ip).get jp m).lock jp = (((H.get jp m).lock jp).get ip n).lock ip := by
  simp only [get, lock, Multiset.cons_swap, Finset.insert_comm]

end Handles

/-- The state holds the files `A`, and the references and locks `H` are out. -/
structure Sound (L : Layout) (H : Handles) (A : Files) (s : State) : Prop where
  volume : ∃ V, Rep L ∅ s V ∧ V.Ok L ∧ V.files L = A
  dirs : A.Dirs L
  refs : ∀ ip, (s.itable ip).ref = H.count ip
  inum : ∀ {ip n}, (ip, n) ∈ H.refs → (s.itable ip).inum = n
  held : ∀ ip, (s.itable ip).locked = true ↔ ip ∈ H.held

/-- What happens to the files when a reference to the file `n` is dropped and the references of `H`
are left: a file without links to which there are no more references may be deleted. -/
def Dropped (H : Handles) (n : ℕ) (A A' : Files) : Prop :=
  A' = A ∨ (∀ ip, (ip, n) ∉ H.refs) ∧ (A n).nlink = 0 ∧ A' = Function.update A n (A n).delete

namespace Sound

variable {L : Layout} {F : Halt → Prop} {H : Handles} {A : Files} {s : State} {ip : Iref} {n : ℕ}

variable {A' : Files} {Q : PUnit → State → Prop} {g : Inode → Inode}

/-- The files have changed, and perhaps which inodes are in memory. -/
lemma of_valid {s' : State} (h : Sound L H A s)
    (hs : ∀ ip, ∃ valid, (s'.itable ip).toEntry = { (s.itable ip).toEntry with valid := valid })
    (hvolume : ∃ V, Rep L ∅ s' V ∧ V.Ok L ∧ V.files L = A') (hdirs : A'.Dirs L) :
    Sound L H A' s' := by
  refine ⟨hvolume, hdirs, ?_, ?_, ?_⟩
  · intro ip
    obtain ⟨valid, hentry⟩ := hs ip
    rw [hentry]
    exact h.refs ip
  · intro ip n hr
    obtain ⟨valid, hentry⟩ := hs ip
    rw [hentry]
    exact h.inum hr
  · intro ip
    obtain ⟨valid, hentry⟩ := hs ip
    rw [hentry]
    exact h.held ip

/-- The files have changed. -/
lemma of_entries {s' : State} (h : Sound L H A s) (hs : s'.entries = s.entries)
    (hvolume : ∃ V, Rep L ∅ s' V ∧ V.Ok L ∧ V.files L = A') (hdirs : A'.Dirs L) : Sound L H A' s' :=
  h.of_valid (fun ip => ⟨_, congrFun hs ip⟩) hvolume hdirs

lemma setLh (h : Sound L H A s) (lh : List ℕ) : Sound L H A { s with lh := lh } := by
  obtain ⟨V, hrep, hok, hfiles⟩ := h.volume
  exact ⟨⟨V, hrep.setLh lh, hok, hfiles⟩, h.dirs, h.refs, h.inum, h.held⟩

lemma inum_lt (h : Sound L H A s) (hr : (ip, n) ∈ H.refs) : n < L.ninodes := by
  obtain ⟨V, hrep, -⟩ := h.volume
  rw [← h.inum hr]
  exact hrep.inum_lt ip

lemma ref_pos (h : Sound L H A s) (hr : (ip, n) ∈ H.refs) : 0 < (s.itable ip).ref := by
  rw [h.refs]
  exact Handles.count_pos hr

/-- A locked inode is in memory. -/
lemma loaded (h : Sound L H A s) (hr : (ip, n) ∈ H.refs) (hheld : ip ∈ H.held) :
    ∃ V, Loaded L ∅ ip n s V ∧ V.files L = A := by
  obtain ⟨V, hrep, hok, hfiles⟩ := h.volume
  have hlive := hrep.locked ip ((h.held ip).mpr hheld)
  have halloc := hrep.allocated hlive (Set.notMem_empty ip)
  rw [h.inum hr] at halloc
  exact ⟨V, ⟨hrep, hok, hlive, h.inum hr, halloc⟩, hfiles⟩

/-- What is in memory of a locked inode. -/
lemma fields (h : Sound L H A s) (hr : (ip, n) ∈ H.refs) (hheld : ip ∈ H.held) :
    (s.itable ip).type = (A n).type ∧ (s.itable ip).major = (A n).major ∧
      (s.itable ip).minor = (A n).minor ∧ (s.itable ip).nlink = (A n).nlink ∧
      (s.itable ip).size.toNat = (A n).size := by
  obtain ⟨V, hload, rfl⟩ := h.loaded hr hheld
  rw [hload.inode]
  exact ⟨rfl, rfl, rfl, rfl, rfl⟩

lemma size_le (h : Sound L H A s) (hr : (ip, n) ∈ H.refs) (htype : (A n).type ≠ 0) :
    (A n).size ≤ MAXFILE * BSIZE := by
  obtain ⟨V, hrep, hok, rfl⟩ := h.volume
  exact hok.size_le ⟨h.inum_lt hr, htype⟩

/-! ### References -/

/-- One more reference to an entry in use. -/
lemma get_of_mem (h : Sound L H A s) (hr : (ip, n) ∈ H.refs) :
    Sound L (H.get ip n) A (s.setInode ip fun i => { i with ref := i.ref + 1 }) := by
  obtain ⟨V, hrep, hok, hfiles⟩ := h.volume
  have hpos := h.ref_pos hr
  refine ⟨⟨V, ?_, hok, hfiles⟩, h.dirs, ?_, ?_, ?_⟩
  · apply hrep.setInode
    · exact hrep.inum_lt ip
    · intro _ jp hjp hjref heq
      exact hjp (hrep.unique jp ip hjref hpos heq)
    · rintro ⟨-, hvalid⟩
      exact ⟨hrep.live ip ⟨hpos, hvalid⟩, hrep.type_ne ip ⟨hpos, hvalid⟩ (Set.notMem_empty ip)⟩
    · intro hlocked
      exact ⟨Nat.succ_pos _, (hrep.locked ip hlocked).2⟩
  · intro jp
    rcases eq_or_ne jp ip with rfl | hjp
    · rw [State.setInode_itable_self, Handles.count_get_self, ← h.refs]
    · rw [State.setInode_itable_of_ne hjp, Handles.count_get_of_ne hjp, h.refs]
  · intro jp m hm
    have hm' : (jp, m) ∈ H.refs := by
      rcases Handles.mem_get.mp hm with ⟨rfl, rfl⟩ | hm
      · exact hr
      · exact hm
    rcases eq_or_ne jp ip with rfl | hjp
    · rw [State.setInode_itable_self]
      exact h.inum hm'
    · rw [State.setInode_itable_of_ne hjp]
      exact h.inum hm'
  · intro jp
    rcases eq_or_ne jp ip with rfl | hjp
    · rw [State.setInode_itable_self]
      exact h.held jp
    · rw [State.setInode_itable_of_ne hjp]
      exact h.held jp

/-- A free entry is taken for an inode that has none. -/
lemma get_of_free (h : Sound L H A s) (hn : n < L.ninodes) (hfree : (s.itable ip).ref = 0)
    (hnew : ∀ jp, 0 < (s.itable jp).ref → (s.itable jp).inum ≠ n) :
    Sound L (H.get ip n) A
      (s.setInode ip fun i => { i with inum := n, ref := 1, valid := false }) := by
  obtain ⟨V, hrep, hok, hfiles⟩ := h.volume
  have hcount : H.count ip = 0 := by rw [← h.refs, hfree]
  refine ⟨⟨V, ?_, hok, hfiles⟩, h.dirs, ?_, ?_, ?_⟩
  · apply hrep.setInode
    · exact hn
    · intro _ jp _ hjref
      exact hnew jp hjref
    · rintro ⟨-, hvalid⟩
      cases hvalid
    · intro hlocked
      have hlive := (hrep.locked ip hlocked).1
      rw [hfree] at hlive
      exact absurd hlive (lt_irrefl 0)
  · intro jp
    rcases eq_or_ne jp ip with rfl | hjp
    · rw [State.setInode_itable_self, Handles.count_get_self, hcount]
    · rw [State.setInode_itable_of_ne hjp, Handles.count_get_of_ne hjp, h.refs]
  · intro jp m hm
    rcases Handles.mem_get.mp hm with ⟨rfl, rfl⟩ | hm'
    · rw [State.setInode_itable_self]
    · have hjp : jp ≠ ip := by
        rintro rfl
        exact (Handles.count_pos hm').ne' hcount
      rw [State.setInode_itable_of_ne hjp]
      exact h.inum hm'
  · intro jp
    rcases eq_or_ne jp ip with rfl | hjp
    · rw [State.setInode_itable_self]
      exact h.held jp
    · rw [State.setInode_itable_of_ne hjp]
      exact h.held jp

/-- An entry is found or taken, unless all are in use. The inode would not be freed if the reference
was dropped at once: there is another reference, or the inode has not been read. -/
lemma wp_iget {Q : Iref → State → Prop} (h : Sound L H A s) (hn : n < L.ninodes)
    (hF : (∀ ip, 0 < H.count ip) → F (.panic .igetNoInodes))
    (hQ : ∀ ip s', Sound L (H.get ip n) A s' → ¬(s'.itable ip).Last → Q ip s') :
    wp F (iget n) Q s := by
  simp only [iget, wp_bind, wp_pause, wp_get]
  split
  · next ip hfind =>
    have hpred := List.find?_some hfind
    simp only [Bool.and_eq_true, decide_eq_true_eq, beq_iff_eq] at hpred
    obtain ⟨m, hm⟩ := Handles.exists_mem_of_count_pos (H := H) (by rw [← h.refs]; exact hpred.1)
    obtain rfl : n = m := hpred.2.symm.trans (h.inum hm)
    simp only [wp_bind, wp_setInode, wp_pure]
    refine hQ ip _ (h.get_of_mem hm) ?_
    rw [State.setInode_itable_self]
    rintro ⟨hone, -⟩
    simp only at hone
    omega
  · next hnone =>
    have hnew : ∀ jp, 0 < (s.itable jp).ref → (s.itable jp).inum ≠ n := by
      intro jp hpos heq
      have hneg := List.find?_eq_none.mp hnone jp (List.mem_finRange jp)
      simp [hpos, heq] at hneg
    split
    · next ip hfind =>
      have hfree := List.find?_some hfind
      rw [beq_iff_eq] at hfree
      simp only [wp_bind, wp_setInode, wp_pure]
      refine hQ ip _ (h.get_of_free hn hfree hnew) ?_
      rw [State.setInode_itable_self]
      exact fun hlast => Bool.false_ne_true hlast.2.1
    · next hfull =>
      apply hF
      intro ip
      have hneg := List.find?_eq_none.mp hfull ip (List.mem_finRange ip)
      rw [beq_iff_eq, h.refs] at hneg
      exact Nat.pos_of_ne_zero hneg

lemma wp_idup {Q : Iref → State → Prop} (h : Sound L H A s) (hr : (ip, n) ∈ H.refs)
    (hQ : ∀ s', Sound L (H.get ip n) A s' → Q ip s') : wp F (idup ip) Q s := by
  simp only [idup, wp_bind, wp_pause, wp_setInode, wp_pure]
  exact hQ _ (h.get_of_mem hr)

/-- A reference is dropped; not the last one to a locked inode. -/
lemma put (h : Sound L (H.get ip n) A s) (hheld : ip ∈ H.held → 0 < H.count ip) :
    Sound L H A (s.setInode ip fun i => { i with ref := i.ref - 1 }) := by
  obtain ⟨V, hrep, hok, hfiles⟩ := h.volume
  have hr : (ip, n) ∈ (H.get ip n).refs := Handles.mem_get_self
  have hpos := h.ref_pos hr
  have href : (s.itable ip).ref - 1 = H.count ip := by
    rw [h.refs, Handles.count_get_self, Nat.add_sub_cancel]
  refine ⟨⟨V, ?_, hok, hfiles⟩, h.dirs, ?_, ?_, ?_⟩
  · apply hrep.setInode
    · exact hrep.inum_lt ip
    · intro _ jp hjp hjref heq
      exact hjp (hrep.unique jp ip hjref hpos heq)
    · rintro ⟨-, hvalid⟩
      exact ⟨hrep.live ip ⟨hpos, hvalid⟩, hrep.type_ne ip ⟨hpos, hvalid⟩ (Set.notMem_empty ip)⟩
    · intro hlocked
      refine ⟨?_, (hrep.locked ip hlocked).2⟩
      show 0 < (s.itable ip).ref - 1
      rw [href]
      exact hheld ((h.held ip).mp hlocked)
  · intro jp
    rcases eq_or_ne jp ip with rfl | hjp
    · rw [State.setInode_itable_self]
      exact href
    · rw [State.setInode_itable_of_ne hjp, h.refs, Handles.count_get_of_ne hjp]
  · intro jp m hm
    have hm' := h.inum (Handles.mem_get.mpr (.inr hm))
    rcases eq_or_ne jp ip with rfl | hjp
    · rw [State.setInode_itable_self]
      exact hm'
    · rw [State.setInode_itable_of_ne hjp]
      exact hm'
  · intro jp
    rcases eq_or_ne jp ip with rfl | hjp
    · rw [State.setInode_itable_self]
      exact h.held jp
    · rw [State.setInode_itable_of_ne hjp]
      exact h.held jp

/-! ### Locks -/

/-- A change of one entry that leaves the references and the numbers of inodes alone. -/
lemma setInode (h : Sound L H A s) {H' : Handles}
    (hvolume : ∃ V, Rep L ∅ (s.setInode ip g) V ∧ V.Ok L ∧ V.files L = A') (hdirs : A'.Dirs L)
    (hrefs : H'.refs = H.refs) (href : (g (s.itable ip)).ref = (s.itable ip).ref)
    (hinum : (g (s.itable ip)).inum = (s.itable ip).inum)
    (hheld : (g (s.itable ip)).locked = true ↔ ip ∈ H'.held)
    (hother : ∀ jp, jp ≠ ip → (jp ∈ H'.held ↔ jp ∈ H.held)) : Sound L H' A' (s.setInode ip g) := by
  refine ⟨hvolume, hdirs, ?_, ?_, ?_⟩
  · intro jp
    rw [Handles.count, hrefs]
    rcases eq_or_ne jp ip with rfl | hjp
    · rw [State.setInode_itable_self, href]
      exact h.refs jp
    · rw [State.setInode_itable_of_ne hjp]
      exact h.refs jp
  · intro jp m hm
    rw [hrefs] at hm
    rcases eq_or_ne jp ip with rfl | hjp
    · rw [State.setInode_itable_self, hinum]
      exact h.inum hm
    · rw [State.setInode_itable_of_ne hjp]
      exact h.inum hm
  · intro jp
    rcases eq_or_ne jp ip with rfl | hjp
    · rw [State.setInode_itable_self]
      exact hheld
    · rw [State.setInode_itable_of_ne hjp, hother jp hjp]
      exact h.held jp

/-- The lock is taken and the inode is in memory. -/
lemma lock (h : Sound L H A s) (hr : (ip, n) ∈ H.refs)
    (hentry : (g (s.itable ip)).toEntry
      = { (s.itable ip).toEntry with locked := true, valid := true })
    (hinode : ∀ V, Rep L ∅ s V → (g (s.itable ip)).toDinode = V.inode n ∧ (V.inode n).type ≠ 0) :
    Sound L (H.lock ip) A (s.setInode ip g) := by
  obtain ⟨V, hrep, hok, hfiles⟩ := h.volume
  have hpos := h.ref_pos hr
  have hinum := h.inum hr
  refine h.setInode ⟨V, ?_, hok, hfiles⟩ h.dirs rfl ?_ ?_ ?_ ?_
  · apply hrep.setInode
    · rw [hentry]
      exact hrep.inum_lt ip
    · rw [hentry]
      intro _ jp hjp hjref heq
      exact hjp (hrep.unique jp ip hjref hpos heq)
    · intro _
      rw [hentry]
      show _ = V.inode (s.itable ip).inum ∧ (V.inode (s.itable ip).inum).type ≠ 0
      rw [hinum]
      exact hinode V hrep
    · rw [hentry]
      exact fun _ => ⟨hpos, rfl⟩
  · rw [hentry]
  · rw [hentry]
  · rw [hentry]
    simp
  · intro jp hjp
    simp [hjp]

/-- The inode is locked and in memory, unless it is free. -/
lemma wp_ilock (h : Sound L H A s) (hr : (ip, n) ∈ H.refs) (hsleep : ip ∈ H.held → F .sleep)
    (htype : (A n).type = 0 → F (.panic .ilockNoType))
    (hQ : ∀ s', ip ∉ H.held → Sound L (H.lock ip) A s' → Q ⟨⟩ s') :
    wp F (ilock L.toSuperblock ip) Q s := by
  have hpos := h.ref_pos hr
  simp only [ilock, acquiresleep, wp_bind, wp_get]
  rw [if_neg (by omega), wp_bind, wp_bind, wp_pause, wp_bind, wp_get]
  by_cases hlocked : (s.itable ip).locked = true
  · rw [if_pos hlocked]
    exact hsleep ((h.held ip).mp hlocked)
  have hfree : ip ∉ H.held := mt (h.held ip).mpr hlocked
  rw [if_neg hlocked, wp_setInode]
  simp only [iread, wp_bind, wp_get, State.setInode_itable_self]
  apply wp_ite
  · intro hvalid
    apply hQ _ hfree
    apply h.lock hr
    · show { (s.itable ip).toEntry with locked := true } = _
      rw [← hvalid]
    · intro V hrep
      rw [← h.inum hr]
      exact ⟨hrep.live ip ⟨hpos, hvalid⟩, hrep.type_ne ip ⟨hpos, hvalid⟩ (Set.notMem_empty ip)⟩
  · intro _
    simp only [wp_bind, wp_bread, wp_setInode, wp_brelse, wp_get, State.setInode_setInode]
    have hdisk : ∀ V, Rep L ∅ s V →
        (s.disk (L.IBLOCK (s.itable ip).inum)).dinode ((s.itable ip).inum % IPB) = V.inode n := by
      intro V hrep
      rw [← h.inum hr]
      exact hrep.inode _ (hrep.inum_lt ip) (by simp)
    obtain ⟨V, hrep, -, rfl⟩ := h.volume
    apply wp_ite
    · intro hzero
      apply htype
      rw [State.setInode_itable_self] at hzero
      rw [← hzero]
      exact congrArg Dinode.type (hdisk V hrep).symm
    · intro hne
      rw [State.setInode_itable_self] at hne
      apply hQ _ hfree
      apply h.lock hr
      · rfl
      · intro V' hrep'
        refine ⟨hdisk V' hrep', ?_⟩
        rw [← hdisk V' hrep']
        exact hne

lemma unlock (h : Sound L H A s) :
    Sound L (H.unlock ip) A (s.setInode ip fun i => { i with locked := false }) := by
  obtain ⟨V, hrep, hok, hfiles⟩ := h.volume
  refine h.setInode ⟨V, ?_, hok, hfiles⟩ h.dirs rfl rfl rfl ?_ ?_
  · apply hrep.setInode
    · exact hrep.inum_lt ip
    · intro hpos jp hjp hjref heq
      exact hjp (hrep.unique jp ip hjref hpos heq)
    · intro hlive
      exact ⟨hrep.live ip hlive, hrep.type_ne ip hlive (Set.notMem_empty ip)⟩
    · intro hlocked
      cases hlocked
  · simp
  · intro jp hjp
    simp [hjp]

lemma wp_iunlock (h : Sound L H A s) (hr : (ip, n) ∈ H.refs) (hheld : ip ∈ H.held)
    (hQ : ∀ s', Sound L (H.unlock ip) A s' → Q ⟨⟩ s') : wp F (iunlock ip) Q s := by
  have hpos := h.ref_pos hr
  have hlocked := (h.held ip).mpr hheld
  simp only [iunlock, wp_bind, wp_get]
  rw [if_neg (by simp [hlocked]; omega)]
  simp only [releasesleep, wp_bind, wp_pause, wp_setInode]
  exact hQ _ h.unlock

/-! ### Dropping a reference -/

/-- A file without links, of which this is the only reference, is deleted: its blocks, and no
others, are given back. -/
lemma wp_iputFree (hF : Exhaustible F) (h : Sound L H A s)
    (hr : (ip, n) ∈ H.refs) (hlive : (s.itable ip).Live) (hfree : ip ∉ H.held)
    (hQ : ∀ s', (∀ b, (s'.volume L.toSuperblock).used b ↔ (s.volume L.toSuperblock).used b ∧
        ∀ slot, (s.volume L.toSuperblock).ref L (n, slot) ≠ some b) →
      Sound L H (Function.update A n (A n).delete) s' → Q ⟨⟩ s') :
    wp F (iputFree L.toSuperblock ip) Q s := by
  have hunlocked : (s.itable ip).locked = false :=
    Bool.eq_false_iff.mpr (mt (h.held ip).mp hfree)
  have hlock : Sound L (H.lock ip) A (s.setInode ip fun i => { i with locked := true }) := by
    apply h.lock hr
    · show { (s.itable ip).toEntry with locked := true } = _
      rw [← hlive.2]
    · intro V hrep
      rw [← h.inum hr]
      exact ⟨hrep.live ip hlive, hrep.type_ne ip hlive (Set.notMem_empty ip)⟩
  obtain ⟨V, hload, hfiles⟩ := hlock.loaded hr Handles.mem_lock_self
  simp only [iputFree, wp_bind, wp_get]
  rw [if_neg (by simp [hunlocked])]
  simp only [wp_bind, wp_setInode]
  apply (hload.mono (Set.empty_subset {ip})).wp_itrunc hF
  intro s₂ hs₂ hload₂
  have hrep₃ := (hload₂.rep.mono (Set.empty_subset {ip})).setFields
    (g := fun i => { i with type := 0 }) hload₂.live rfl rfl rfl
  have hclear : (s₂.itable ip).toDinode = (V.inode n).clear := by
    rw [hload₂.inode, Volume.truncate_inode_self]
  have hdelete : (V.truncate L n).setInode n { (s₂.itable ip).toDinode with type := 0 }
      = V.delete L n := by
    rw [hclear, Volume.delete]
  rw [hload₂.inum] at hrep₃
  have hrep₃' : Rep L {ip} (s₂.setInode ip fun i => { i with type := 0 }) (V.delete L n) := by
    rw [← hdelete]
    exact hrep₃
  have hs₃ : (s₂.setInode ip fun i => { i with type := 0 }).entries
      = (s.setInode ip fun i => { i with locked := true }).entries := by
    rw [State.entries_setInode, hs₂]
    exact fun _ => rfl
  have hlive₃ := (State.live_congr hs₃).mpr hload.live
  simp only [wp_bind, wp_setInode]
  apply Fs.wp_iupdate hF hrep₃' hlive₃
  intro s₄ hs₄ hrep₄ hdisk
  have hentries := (State.entries_congr hs₄).trans hs₃
  simp only [releasesleep, wp_bind, wp_setInode, wp_pause, State.setInode_setInode]
  rw [← hs₄] at hdisk
  have hrep₅ := hrep₄.retire (g := fun i => { i with locked := false, valid := false })
    hdisk rfl rfl rfl rfl
  apply hQ
  · intro b
    have hused := congrFun hrep₅.used_volume b
    -- the lock has not changed the disk
    have hbefore := congrFun hload.rep.used_volume b
    have href := hload.rep.ref_volume hload.ok
    exact (iff_of_eq hused).trans
      (and_congr (iff_of_eq hbefore.symm) (by rw [← href]; exact Iff.rfl))
  apply h.of_valid
  · intro jp
    rcases eq_or_ne jp ip with rfl | hjp
    · refine ⟨false, ?_⟩
      rw [State.setInode_itable_self]
      have hentry : (s₄.itable jp).toEntry = { (s.itable jp).toEntry with locked := true } := by
        have := congrFun hentries jp
        rwa [State.entries, State.entries, State.setInode_itable_self] at this
      show { (s₄.itable jp).toEntry with locked := false, valid := false } = _
      rw [hentry]
      simp only [hunlocked]
    · refine ⟨(s.itable jp).valid, ?_⟩
      have hentry := congrFun hentries jp
      rw [State.entries, State.entries, State.setInode_itable_of_ne hjp] at hentry
      rw [State.setInode_itable_of_ne hjp, hentry]
  · refine ⟨V.delete L n, hrep₅, hload.ok.delete, ?_⟩
    rw [Volume.files_delete, hfiles]
  · exact h.dirs.update_empty rfl

/-- An inode has one entry in the inode table. -/
lemma unique (h : Sound L H A s) {jp : Iref} (hr : (ip, n) ∈ H.refs) (hr' : (jp, n) ∈ H.refs) :
    jp = ip := by
  obtain ⟨V, hrep, -⟩ := h.volume
  exact hrep.unique jp ip (h.ref_pos hr') (h.ref_pos hr) ((h.inum hr').trans (h.inum hr).symm)

/-- A reference is dropped, and the inode is not freed. -/
lemma wp_iput_of_not_last (h : Sound L (H.get ip n) A s) (hheld : ip ∈ H.held → 0 < H.count ip)
    (hlast : ¬(s.itable ip).Last) (hQ : ∀ s', Sound L H A s' → Q ⟨⟩ s') :
    wp F (iput L.toSuperblock ip) Q s := by
  simp only [iput, wp_bind, wp_pause, wp_get]
  rw [if_neg hlast]
  exact hQ _ (h.put hheld)

/-- An inode that has links or further references is not freed. -/
lemma not_last (h : Sound L (H.get ip n) A s)
    (hlink : (A n).type ≠ 0 → (A n).nlink = 0 → 0 < H.count ip) : ¬(s.itable ip).Last := by
  rintro ⟨href, hvalid, hnlink⟩
  obtain ⟨V, hrep, -, rfl⟩ := h.volume
  have hinum := h.inum Handles.mem_get_self
  have hlive : (s.itable ip).Live := ⟨by omega, hvalid⟩
  have hinode := hrep.live ip hlive
  have htype := hrep.type_ne ip hlive (Set.notMem_empty ip)
  rw [hinum] at hinode htype
  rw [hinode] at hnlink
  have hpos := hlink htype hnlink
  rw [h.refs, Handles.count_get_self] at href
  omega

/-- A reference is dropped. -/
lemma wp_iput (hF : Exhaustible F) (h : Sound L (H.get ip n) A s)
    (hheld : ip ∈ H.held → 0 < H.count ip)
    (hQ : ∀ s' A', Dropped H n A A' → Sound L H A' s' → Q ⟨⟩ s') :
    wp F (iput L.toSuperblock ip) Q s := by
  have hr : (ip, n) ∈ (H.get ip n).refs := Handles.mem_get_self
  simp only [iput, wp_bind, wp_pause, wp_get]
  apply wp_ite
  · rintro ⟨href, hvalid, hnlink⟩
    have hcount : H.count ip = 0 := by
      rw [h.refs, Handles.count_get_self] at href
      omega
    have hfree : ip ∉ H.held := by
      intro hmem
      have := hheld hmem
      omega
    have hlive : (s.itable ip).Live := ⟨by omega, hvalid⟩
    rw [wp_bind]
    apply h.wp_iputFree hF hr hlive hfree
    intro s₁ _ h₁
    rw [wp_setInode]
    have hlast : ∀ jp, (jp, n) ∉ H.refs := by
      intro jp hjp
      obtain rfl := h.unique hr (Handles.mem_get.mpr (.inr hjp))
      exact (Handles.count_pos hjp).ne' hcount
    refine hQ _ _ (.inr ⟨hlast, ?_, rfl⟩) (h₁.put hheld)
    obtain ⟨V, hrep, -, rfl⟩ := h.volume
    rw [← hnlink, hrep.live ip hlive, h.inum hr]
    rfl
  · intro _
    exact hQ _ A (.inl rfl) (h.put hheld)

/-- Unlock, then put. -/
lemma wp_iunlockput (hF : Exhaustible F) (h : Sound L ((H.get ip n).lock ip) A s)
    (hfree : ip ∉ H.held) (hQ : ∀ s' A', Dropped H n A A' → Sound L H A' s' → Q ⟨⟩ s') :
    wp F (iunlockput L.toSuperblock ip) Q s := by
  have hr : (ip, n) ∈ ((H.get ip n).lock ip).refs := Handles.mem_get_self
  rw [iunlockput, wp_bind]
  apply h.wp_iunlock hr Handles.mem_lock_self
  intro s₁ h₁
  rw [Handles.unlock_lock (H := H.get ip n) hfree] at h₁
  exact h₁.wp_iput hF (fun hheld => absurd hheld hfree) hQ

/-- The same for an inode that has links or further references. -/
lemma wp_iunlockput_of_link (h : Sound L ((H.get ip n).lock ip) A s) (hfree : ip ∉ H.held)
    (hlink : (A n).type ≠ 0 → (A n).nlink = 0 → 0 < H.count ip)
    (hQ : ∀ s', Sound L H A s' → Q ⟨⟩ s') : wp F (iunlockput L.toSuperblock ip) Q s := by
  have hr : (ip, n) ∈ ((H.get ip n).lock ip).refs := Handles.mem_get_self
  rw [iunlockput, wp_bind]
  apply h.wp_iunlock hr Handles.mem_lock_self
  intro s₁ h₁
  rw [Handles.unlock_lock (H := H.get ip n) hfree] at h₁
  exact h₁.wp_iput_of_not_last (fun hheld => absurd hheld hfree) (h₁.not_last hlink) hQ

/-! ### Allocating an inode -/

/-- A free inode is claimed on disk. -/
lemma alloc (h : Sound L H A s) (hn : n < L.ninodes)
    (hzero : (s.dinode L.toSuperblock n).type = 0) (type : Int16) :
    Sound L H (Function.update A n (File.new type)) (s.setData (L.IBLOCK n)
      (·.setDinode (n % IPB) { Dinode.zero with type := type })) := by
  obtain ⟨V, hrep, hok, rfl⟩ := h.volume
  have hfree : (V.inode n).type = 0 := by
    rw [← hrep.inode n hn (by simp)]
    exact hzero
  have hempty : ∀ slot, V.ref L (n, slot) = none :=
    fun slot => Volume.ref_of_not_allocated fun hn => hn.2 hfree
  have haddr : ∀ k ≤ NDIRECT, ({ Dinode.zero with type := type } : Dinode).addr k = 0 :=
    fun k _ => Dinode.addr_zero k
  have hcontent : V.content L n = fun _ => 0 := funext fun _ => Volume.content_of_none (hempty _)
  refine h.of_entries (State.entries_congr ?_) ?_ ?_
  · rfl
  · refine ⟨V.setInode n { Dinode.zero with type := type }, ?_, ?_, ?_⟩
    · apply hrep.setDinode hn
      rintro ip hlive rfl
      exact hrep.type_ne ip hlive (Set.notMem_empty ip) hfree
    · exact hok.setInode_of_empty hempty haddr rfl
    · rw [Volume.files_setInode (Volume.ref_setInode_of_empty hempty haddr), hcontent]
      rfl
  · exact h.dirs.update_empty rfl

lemma wp_iallocFrom {Q : Iref → State → Prop} (hF : Exhaustible F)
    (hF' : F (.panic .igetNoInodes)) (hF'' : F (.panic .iallocNoInodes)) (h : Sound L H A s)
    {type : Int16} {inums : List ℕ} (hinums : ∀ n ∈ inums, 0 < n ∧ n < L.ninodes)
    (hQ : ∀ n ip s', 0 < n → (A n).type = 0 →
      Sound L (H.get ip n) (Function.update A n (File.new type)) s' → Q ip s') :
    wp F (iallocFrom L.toSuperblock type inums) Q s := by
  induction inums with
  | nil => simpa only [iallocFrom, wp_panic] using hF''
  | cons n inums ih =>
    obtain ⟨hpos, hn⟩ := hinums n List.mem_cons_self
    simp only [iallocFrom, wp_bind, wp_bread]
    apply wp_ite
    · intro hzero
      have hfree : (A n).type = 0 := by
        obtain ⟨V, hrep, -, rfl⟩ := h.volume
        show (V.inode n).type = 0
        rw [← hrep.inode n hn (by simp)]
        exact hzero
      simp only [wp_bind, wp_setData]
      apply wp_logWrite hF
      intro lh
      simp only [wp_bind, wp_brelse]
      apply ((h.alloc hn hzero type).setLh lh).wp_iget hn fun _ => hF'
      intro ip s' h' _
      exact hQ n ip s' hpos hfree h'
    · intro _
      simp only [wp_bind, wp_brelse]
      exact ih fun m hm => hinums m (List.mem_cons_of_mem n hm)

/-- A free inode is taken for a new file. -/
lemma wp_ialloc {Q : Iref → State → Prop} (hF : Exhaustible F) (hF' : F (.panic .igetNoInodes))
    (hF'' : F (.panic .iallocNoInodes)) (h : Sound L H A s) {type : Int16}
    (hQ : ∀ n ip s', 0 < n → (A n).type = 0 →
      Sound L (H.get ip n) (Function.update A n (File.new type)) s' → Q ip s') :
    wp F (ialloc L.toSuperblock type) Q s := by
  apply h.wp_iallocFrom hF hF' hF'' _ hQ
  intro n hn
  rw [List.mem_range'_1] at hn
  omega

/-! ### The content of a locked inode -/

section Content

variable (hr : (ip, n) ∈ H.refs) (hheld : ip ∈ H.held)

include hr hheld

lemma wp_readi {Q : Option (List UInt8) → State → Prop} {dst : ℕ → Bool} {off m : ℕ}
    (h : Sound L H A s) (hm : m < 2 ^ 32)
    (hQ : ∀ r, (r = some ((A n).read off m) ∨ r = none ∧ ∃ t < m, dst t = false) → Q r s) :
    wp F (readi L.toSuperblock ip dst off m) Q s := by
  obtain ⟨V, hload, rfl⟩ := h.loaded hr hheld
  exact hload.wp_readi hm hQ

lemma wp_writei {Q : ℤ → State → Prop} {src : Source} {off m : ℕ} (hF : Exhaustible F)
    (h : Sound L H A s) (hm : m < 2 ^ 32)
    (hdirs : ∀ tot c, ((∀ t < m, (src t).isSome) → tot = m ∧ c = m) →
      Files.Dirs L (Function.update A n ((A n).write off tot c (src.bytes 0))))
    (hrefuse : (A n).Refuses off m → Q (-1) s)
    (hQ : ∀ (tot c : ℕ) (s' : State), ¬(A n).Refuses off m → tot ≤ m →
      ((∀ t < m, (src t).isSome) → tot = m ∧ c = m) →
      Sound L H (Function.update A n ((A n).write off tot c (src.bytes 0))) s' → Q tot s') :
    wp F (writei L.toSuperblock ip src off m) Q s := by
  obtain ⟨V, hload, rfl⟩ := h.loaded hr hheld
  apply hload.wp_writei hF hm hrefuse
  intro tot c s' V' haccept hs' hload' htot hstops hfiles
  have hall : (∀ t < m, (src t).isSome) → tot = m ∧ c = m := by
    intro hsrc
    simpa using hstops.all hsrc
  exact hQ tot c s' haccept htot hall
    (h.of_entries hs' ⟨V', hload'.rep, hload'.ok, hfiles⟩ (hdirs tot c hall))

lemma wp_itrunc (hF : Exhaustible F) (h : Sound L H A s)
    (hQ : ∀ s', Sound L H (Function.update A n (A n).truncate) s' → Q ⟨⟩ s') :
    wp F (itrunc L.toSuperblock ip) Q s := by
  obtain ⟨V, hload, rfl⟩ := h.loaded hr hheld
  apply (hload.mono (Set.empty_subset {ip})).wp_itrunc hF
  intro s' hs' hload'
  exact hQ s' (h.of_entries hs' ⟨_, hload'.rep, hload'.ok, Volume.files_truncate⟩
    (h.dirs.update_empty rfl))

/-- Fields of the inode are changed in memory, and then on disk. -/
lemma wp_iupdate {f : File}
    (hF : Exhaustible F) (h : Sound L H A s)
    (hentry : ∀ i, (g i).toEntry = i.toEntry) (htype : ∀ i, (g i).type = i.type)
    (hsize : ∀ i, (g i).size = i.size) (haddrs : ∀ i, (g i).addrs = i.addrs)
    (hf : ∀ i : Inode, i.major = (A n).major → i.minor = (A n).minor → i.nlink = (A n).nlink →
      f = { A n with major := (g i).major, minor := (g i).minor, nlink := (g i).nlink })
    (hQ : ∀ s', Sound L H (Function.update A n f) s' → Q ⟨⟩ s') :
    wp F (iupdate L.toSuperblock ip) Q (s.setInode ip g) := by
  obtain ⟨V, hload, rfl⟩ := h.loaded hr hheld
  have hload₁ := hload.mono (Set.empty_subset {ip})
  have hrep := hload₁.rep.setFields (g := g) hload.live (congrArg Entry.inum (hentry _))
    (congrArg Entry.ref (hentry _)) (congrArg Entry.valid (hentry _))
  rw [hload.inum] at hrep
  have htype' : (g (s.itable ip)).type = (V.inode n).type := by rw [htype, hload.inode]
  have hsize' : (g (s.itable ip)).size = (V.inode n).size := by rw [hsize, hload.inode]
  have haddr : ∀ k ≤ NDIRECT, (g (s.itable ip)).addr k = (V.inode n).addr k := by
    intro k _
    rw [← hload.inode, Dinode.addr, Dinode.addr, haddrs]
  have hentries : (s.setInode ip g).entries = s.entries := State.entries_setInode hentry
  have hok : (V.setInode n (g (s.itable ip)).toDinode).Ok L := by
    apply hload.ok.setInode htype' haddr
    intro hn
    rw [hsize']
    exact ⟨hload.ok.size_le hn, fun bn hbn => hload.ok.mapped hn hbn⟩
  have halloc : (V.setInode n (g (s.itable ip)).toDinode).Allocated L n := by
    rw [Volume.Allocated, Volume.setInode_inode_self, htype']
    exact hload.allocated
  have hfiles : (V.setInode n (g (s.itable ip)).toDinode).files L
      = Function.update (V.files L) n f := by
    rw [Volume.files_setInode (Volume.ref_setInode htype' haddr), hsize', htype',
      hf (s.itable ip) (by rw [hload.inode]; rfl) (by rw [hload.inode]; rfl)
        (by rw [hload.inode]; rfl)]
    rfl
  apply (hload₁.of_entries hentries hrep hok halloc).wp_iupdate hF
  intro s' hs' hload'
  apply hQ
  apply h.of_entries ((State.entries_congr hs').trans hentries)
    ⟨_, hload'.rep, hload'.ok, hfiles⟩
  rw [hf (s.itable ip) (by rw [hload.inode]; rfl) (by rw [hload.inode]; rfl)
    (by rw [hload.inode]; rfl)]
  exact h.dirs.update_fields hload.allocated.1 rfl rfl

/-- The link count is changed. -/
lemma wp_setNlink {f : Int16 → Int16} (hF : Exhaustible F)
    (h : Sound L H A s)
    (hQ : ∀ s', Sound L H (Function.update A n { A n with nlink := f (A n).nlink }) s' → Q ⟨⟩ s') :
    wp F (iupdate L.toSuperblock ip) Q (s.setInode ip fun i => { i with nlink := f i.nlink }) := by
  refine h.wp_iupdate hr hheld hF ?_ ?_ ?_ ?_ ?_ hQ
  · exact fun _ => rfl
  · exact fun _ => rfl
  · exact fun _ => rfl
  · exact fun _ => rfl
  · intro i hmajor hminor hnlink
    rw [hmajor, hminor, hnlink]

/-- The fields that `create` sets in a new inode. -/
lemma wp_initInode {major minor nlink : Int16} (hF : Exhaustible F)
    (h : Sound L H A s)
    (hQ : ∀ s', Sound L H (Function.update A n
      { A n with major := major, minor := minor, nlink := nlink }) s' → Q ⟨⟩ s') :
    wp F (iupdate L.toSuperblock ip) Q
      (s.setInode ip fun i => { i with major := major, minor := minor, nlink := nlink }) := by
  refine h.wp_iupdate hr hheld hF ?_ ?_ ?_ ?_ ?_ hQ
  · exact fun _ => rfl
  · exact fun _ => rfl
  · exact fun _ => rfl
  · exact fun _ => rfl
  · exact fun _ _ _ _ => rfl

end Content

end Sound

/-! ### The file system at the start -/

/-- A file system as the kernel finds it: every block that is marked has one owner, files have no
holes, directories name existing inodes, and nothing is in use. -/
structure Image (L : Layout) (s : State) : Prop where
  root : ROOTINO < L.ninodes
  ok : (s.volume L.toSuperblock).Ok L
  dirs : Files.Dirs L ((s.volume L.toSuperblock).files L)
  inum_lt : ∀ ip, (s.itable ip).inum < L.ninodes
  ref : ∀ ip, (s.itable ip).ref = 0
  locked : ∀ ip, (s.itable ip).locked = false

lemma Image.sound {L : Layout} {s : State} (h : Image L s) :
    Sound L ⟨0, ∅⟩ ((s.volume L.toSuperblock).files L) s := by
  refine ⟨⟨s.volume L.toSuperblock, ?_, h.ok, rfl⟩, h.dirs, h.ref, ?_, ?_⟩
  · have hdead : ∀ ip, ¬(s.itable ip).Live := by
      rintro ip ⟨hpos, -⟩
      exact hpos.ne' (h.ref ip)
    exact {
      used := fun _ => Iff.rfl
      data := fun _ _ _ => rfl
      inode := fun _ _ _ => rfl
      live := fun ip hip => absurd hip (hdead ip)
      type_ne := fun ip hip => absurd hip (hdead ip)
      inum_lt := h.inum_lt
      unique := fun ip _ hip => absurd (h.ref ip) hip.ne'
      locked := fun ip hip => absurd hip (by simp [h.locked ip]) }
  · intro ip n hmem
    exact absurd hmem (Multiset.notMem_zero _)
  · intro ip
    simp [h.locked ip]

/-- A file system that is sound, and of which nothing is in use. -/
lemma Image.of_sound {L : Layout} {A : Files} {s : State} (hroot : ROOTINO < L.ninodes)
    (h : Sound L ⟨0, ∅⟩ A s) : Image L s := by
  obtain ⟨V, hrep, hok, rfl⟩ := h.volume
  refine ⟨hroot, hrep.volume_ok hok, ?_, hrep.inum_lt, h.refs, ?_⟩
  · intro n hn
    simp only [Volume.files, hrep.inode_volume hn, hrep.content_volume hok]
    exact h.dirs n hn
  · intro ip
    rw [Bool.eq_false_iff]
    exact mt (h.held ip).mp (Finset.notMem_empty ip)

lemma blank_image : Image Layout.mkfs State.blank where
  root := by decide
  ok := State.blank_ok
  dirs := by
    intro n hn htype
    have hzero := State.blank_dinode n hn
    have : ((State.blank.dinode Layout.mkfs.toSuperblock n).type : Int16) = T_DIR := htype
    rw [hzero] at this
    exact absurd this (by decide)
  inum_lt _ := Layout.mkfs.ninodes_pos
  ref _ := rfl
  locked _ := rfl

end Xv6.Fs
