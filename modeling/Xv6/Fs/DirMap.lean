import Xv6.Core.Slots
import Xv6.Fs.Directory

/-!
# Directories as maps

A directory maps names, cut to `DIRSIZ` bytes, to inode numbers. Its entries are a row of slots:
`dirlookup` looks a name up in it, `dirlink` enters a new name, and the entry that `sys_unlink`
clears is that of a name.
-/

namespace Xv6.Fs

open Core Coroutine

lemma length_strncpy {n : ℕ} {t : CStr} : (strncpy n t).length = n := by
  have hle : ((t.take n).takeWhile (· != 0)).length ≤ n :=
    (List.takeWhile_prefix _).length_le.trans (List.length_take_le _ _)
  simp only [strncpy, List.length_append, List.length_replicate]
  omega

namespace File

variable {f : File} {name : CStr} {i j k : ℕ}

/-- The entries of a directory, by the strings in their names; the last may be cut off. -/
def slots (f : File) : Slots CStr ℕ where
  size := (f.size + 15) / Dirent.size
  slot k :=
    if (f.dirent (16 * k)).inum = 0 then none
    else some (CStr.clip DIRSIZ (f.dirent (16 * k)).name, (f.dirent (16 * k)).inum)

lemma matches_iff : f.Matches name k ↔ f.slots.HasKey (name.clip DIRSIZ) k := by
  have hlt : 16 * k < f.size ↔ k < (f.size + 15) / 16 := by omega
  rw [Matches, namecmp, strncmp_eq_zero_iff, Slots.HasKey, slots, Dirent.size, hlt]
  refine and_congr_right fun _ => ?_
  by_cases hzero : (f.dirent (16 * k)).inum = 0
  · simp [hzero]
  · simp [hzero, eq_comm]

lemma finds_iff : f.Finds name k ↔ f.slots.find (name.clip DIRSIZ) = some k := by
  simp only [Finds, Slots.find_eq_some_iff, matches_iff]

lemma Finds.lookup (h : f.Finds name k) :
    f.slots.lookup (name.clip DIRSIZ) = some (f.dirent (16 * k)).inum := by
  have hzero : (f.dirent (16 * k)).inum ≠ 0 := h.1.2.1
  rw [Slots.lookup, finds_iff.mp h, Option.bind_some]
  simp only [slots, if_neg hzero, Option.map_some]

lemma lookup_eq_none_of_matches (h : ∀ k, ¬f.Matches name k) :
    f.slots.lookup (name.clip DIRSIZ) = none :=
  Slots.lookup_eq_none_iff.mpr fun k => mt matches_iff.mpr (h k)

lemma slots_unique_of_size (h : f.size = 0) : f.slots.Unique := by
  intro key i j hi
  have hlt := hi.1
  simp only [slots, h, Dirent.size] at hlt
  omega

/-! ### Writing an entry -/

/-- The entry `de` is written to the `k`-th place. -/
def setDirent (f : File) (k : ℕ) (de : Dirent) : File :=
  f.write (16 * k) 16 16 fun t => de.bytes.getD t 0

variable {de : Dirent}

lemma setDirent_of_ne (hj : j ≠ k) : (f.setDirent k de).dirent (16 * j) = f.dirent (16 * j) := by
  have hcontent : ∀ t < 16, (f.setDirent k de).content (16 * j + t) = f.content (16 * j + t) := by
    intro t ht
    exact if_neg (by omega)
  simp only [dirent, direntInum]
  congr 1
  · rw [← Nat.add_zero (16 * j), hcontent 0 (by omega), Nat.add_zero, hcontent 1 (by omega)]
  · apply List.map_congr_left
    intro t ht
    rw [List.mem_range] at ht
    rw [Nat.add_assoc, hcontent _ (by simp only [DIRSIZ] at ht; omega)]

lemma setDirent_self (hinum : de.inum < 2 ^ 16) (hname : de.name.length = DIRSIZ) :
    (f.setDirent k de).dirent (16 * k) = de := by
  have hcontent : ∀ t < 16, (f.setDirent k de).content (16 * k + t) = de.bytes.getD t 0 := by
    intro t ht
    simp only [setDirent, write, patch]
    rw [if_pos (by omega), Nat.add_sub_cancel_left]
  have hname' : (List.range DIRSIZ).map (fun t => (f.setDirent k de).content (16 * k + 2 + t))
      = de.name := by
    apply List.ext_getElem
    · simp [hname]
    · intro t h₁ h₂
      have hlt : t < 14 := h₂.trans_eq hname
      rw [List.getElem_map, List.getElem_range, Nat.add_assoc, hcontent _ (by omega),
        Nat.add_comm 2]
      simp [Dirent.bytes, List.getElem?_eq_getElem h₂]
  have hinum' : direntInum (f.setDirent k de).content (16 * k) = de.inum := by
    rw [direntInum, ← Nat.add_zero (16 * k), hcontent 0 (by omega), Nat.add_zero,
      hcontent 1 (by omega)]
    simp only [Dirent.bytes, List.getD_cons_zero, List.getD_cons_succ, UInt8.toNat_ofNat']
    omega
  simp only [dirent, hinum', hname']

lemma setDirent_size : (f.setDirent k de).size = max f.size (16 * k + 16) := rfl

lemma slots_slot_setDirent_of_ne (hj : j ≠ k) :
    (f.setDirent k de).slots.slot j = f.slots.slot j := by
  simp only [slots, setDirent_of_ne hj]

/-- A new name is a new key. -/
lemma slots_setDirent (hi : i < 2 ^ 16) (hzero : i ≠ 0) :
    (f.setDirent k ⟨i, strncpy DIRSIZ name⟩).slots = f.slots.put k (name.clip DIRSIZ, i) := by
  have hself : (f.setDirent k ⟨i, strncpy DIRSIZ name⟩).dirent (16 * k)
      = ⟨i, strncpy DIRSIZ name⟩ := setDirent_self hi length_strncpy
  have hslot : (f.setDirent k ⟨i, strncpy DIRSIZ name⟩).slots.slot
      = Function.update f.slots.slot k (some (name.clip DIRSIZ, i)) := by
    funext j
    rcases eq_or_ne j k with rfl | hj
    · rw [Function.update_self]
      simp only [slots, hself, if_neg hzero, clip_strncpy]
    · rw [Function.update_of_ne hj, slots_slot_setDirent_of_ne hj]
  have hsize : (f.setDirent k ⟨i, strncpy DIRSIZ name⟩).slots.size = max f.slots.size (k + 1) := by
    simp only [slots, setDirent_size, Dirent.size]
    omega
  rw [Slots.put, ← hslot, ← hsize]

/-- An entry without an inode is none. -/
lemma slots_slot_setDirent_zero (hzero : de.inum = 0) (hname : de.name.length = DIRSIZ) :
    (f.setDirent k de).slots.slot = Function.update f.slots.slot k none := by
  funext j
  rcases eq_or_ne j k with rfl | hj
  · have hself := setDirent_self (f := f) (k := j) (hzero ▸ (by decide)) hname
    rw [Function.update_self]
    simp only [slots, hself, if_pos hzero]
  · rw [Function.update_of_ne hj, slots_slot_setDirent_of_ne hj]

/-- An entry all of whose bytes are 0. -/
def emptyEntry : Dirent := ⟨0, List.replicate DIRSIZ 0⟩

lemma write_zeros : f.write (16 * k) 16 16 (fun t => ([] : List UInt8).getD t 0)
    = f.setDirent k emptyEntry := by
  have hbytes : (fun t => ([] : List UInt8).getD t 0) = fun t => emptyEntry.bytes.getD t 0 := by
    funext t
    have hall : emptyEntry.bytes = List.replicate 16 0 := rfl
    rw [hall, List.getD_eq_getElem?_getD, List.getD_eq_getElem?_getD, List.getElem?_replicate]
    split <;> rfl
  rw [hbytes]
  rfl

/-! ### Entering and removing names -/

section Unique

variable (hunique : f.slots.Unique) (hsize : f.size % 16 = 0)

include hunique hsize

/-- A name that is not there is entered at a vacant place. -/
lemma lookup_setDirent (hno : ∀ j, ¬f.Matches name j) (hvacant : f.Vacant k) (hi : i < 2 ^ 16) :
    (f.setDirent k ⟨i, strncpy DIRSIZ name⟩).slots.Unique ∧ ∀ name' : CStr,
      (f.setDirent k ⟨i, strncpy DIRSIZ name⟩).slots.lookup (name'.clip DIRSIZ)
        = if name'.clip DIRSIZ = name.clip DIRSIZ then nonzero i
          else f.slots.lookup (name'.clip DIRSIZ) := by
  obtain ⟨hk, -, hempty⟩ := hvacant
  have hle : k ≤ f.slots.size := by
    simp only [slots, Dirent.size]
    omega
  have hslot : k < f.slots.size → f.slots.slot k = none := by
    intro hlt
    simp only [slots, Dirent.size] at hlt
    exact if_pos (hempty (by omega))
  have hno' : ∀ j, ¬f.slots.HasKey (name.clip DIRSIZ) j := fun j => mt matches_iff.mpr (hno j)
  by_cases hzero : i = 0
  · subst hzero
    -- the entry that is written is empty
    have hkey : ∀ key j, (f.setDirent k ⟨0, strncpy DIRSIZ name⟩).slots.HasKey key j ↔
        f.slots.HasKey key j := by
      intro key j
      have hsz : (f.setDirent k ⟨0, strncpy DIRSIZ name⟩).slots.size
          = max f.slots.size (k + 1) := by
        simp only [slots, setDirent_size, Dirent.size]
        omega
      rw [Slots.HasKey, Slots.HasKey, slots_slot_setDirent_zero rfl length_strncpy, hsz]
      rcases eq_or_ne j k with rfl | hj
      · rw [Function.update_self]
        refine iff_of_false (by simp) ?_
        rintro ⟨hlt, h⟩
        rw [hslot hlt] at h
        cases h
      · rw [Function.update_of_ne hj]
        refine and_congr_left fun _ => ?_
        omega
    refine ⟨fun key i j hi hj => hunique key i j ((hkey key i).mp hi) ((hkey key j).mp hj), ?_⟩
    intro name'
    have hsame : (f.setDirent k ⟨0, strncpy DIRSIZ name⟩).slots.lookup (name'.clip DIRSIZ)
        = f.slots.lookup (name'.clip DIRSIZ) := by
      apply Slots.lookup_congr (hkey _)
      intro j hj
      apply slots_slot_setDirent_of_ne
      rintro rfl
      obtain ⟨hlt, h⟩ := hj
      rw [hslot hlt] at h
      cases h
    rw [hsame]
    split
    · next heq =>
      rw [heq, Slots.lookup_eq_none_iff.mpr hno']
      rfl
    · rfl
  · rw [slots_setDirent hi hzero]
    refine ⟨hunique.put hslot hle hno', fun name' => ?_⟩
    rw [hunique.lookup_put hslot hle hno', nonzero, if_neg hzero]

end Unique

end File

/-! ### The code -/

section Code

variable {L : Layout} {H : Handles} {A : Files} {s : State} {dp : Iref} {d : ℕ}

end Code

/-! ### More inodes than numbers in entries -/

end Xv6.Fs
