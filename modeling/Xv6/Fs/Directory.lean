import Xv6.Fs.Handles
import Xv6.Fs.Name

/-!
# Directories

The directory layer on its own, in terms of the entries of the directory file.
-/

namespace Xv6.Fs

open Core Coroutine

/-! ### Names -/

/-- The string in the first `n` bytes. -/
def CStr.clip (n : ℕ) (p : CStr) : CStr := (p.take n).takeWhile (· != 0)

variable {n k : ℕ} {p : CStr}

lemma CStr.clip_eq_nil_iff : p.clip (n + 1) = [] ↔ p.headD 0 = 0 := by
  cases p with
  | nil => simp [clip]
  | cons a p => simp [clip, List.takeWhile_cons]

lemma CStr.clip_cons {a : UInt8} (ha : a ≠ 0) :
    CStr.clip (n + 1) (a :: p) = a :: CStr.clip n p := by
  simp [clip, ha]

/-- Strings without zeros are cut at the length only. -/
lemma CStr.clip_eq_take (h : 0 ∉ p) : p.clip n = p.take n := by
  rw [clip, List.takeWhile_eq_self_iff]
  intro a ha
  rw [bne_iff_ne]
  rintro rfl
  exact h (List.mem_of_mem_take ha)

/-- `strncmp` compares the strings in the first `n` bytes. -/
lemma strncmp_eq_zero_iff {q : CStr} : strncmp n p q = 0 ↔ p.clip n = q.clip n := by
  induction n generalizing p q with
  | zero => simp [strncmp, CStr.clip]
  | succ n ih =>
    by_cases hp : p.headD 0 = 0
    · have hnil := CStr.clip_eq_nil_iff (n := n).mpr hp
      rw [strncmp, if_neg fun h => h.1 hp, hnil, hp, sub_eq_zero, Nat.cast_inj, UInt8.toNat_inj,
        eq_comm, ← CStr.clip_eq_nil_iff (n := n), eq_comm]
    · obtain ⟨a, p, rfl⟩ : ∃ a p', p = a :: p' :=
        List.exists_cons_of_ne_nil fun h => hp (by simp [h])
      replace hp : a ≠ 0 := hp
      rw [strncmp, CStr.clip_cons hp]
      by_cases heq : a = q.headD 0
      · obtain ⟨b, q, rfl⟩ : ∃ b q', q = b :: q' :=
          List.exists_cons_of_ne_nil fun h => hp (by simpa [h] using heq)
        obtain rfl : a = b := heq
        rw [if_pos ⟨hp, rfl⟩, CStr.clip_cons hp, List.cons_inj_right]
        exact ih
      · rw [if_neg fun h => heq h.2, sub_eq_zero, Nat.cast_inj, UInt8.toNat_inj]
        constructor
        · exact fun h => absurd h heq
        · intro h
          cases q with
          | nil => simp [CStr.clip] at h
          | cons b q =>
            by_cases hb : b = 0
            · simp [CStr.clip, hb] at h
            · rw [CStr.clip_cons hb] at h
              exact absurd (List.cons.inj h).1 heq

lemma clip_strncpy {t : CStr} : CStr.clip n (strncpy n t) = CStr.clip n t := by
  have hle : ((t.take n).takeWhile (· != 0)).length ≤ n :=
    (List.takeWhile_prefix _).length_le.trans (List.length_take_le _ _)
  have htake : (strncpy n t).take n = strncpy n t := by
    apply List.take_of_length_le
    simp only [strncpy, List.length_append, List.length_replicate]
    omega
  rw [CStr.clip, htake, strncpy, CStr.clip, List.takeWhile_append_of_pos]
  · cases n - ((t.take n).takeWhile (· != 0)).length with
    | zero => simp
    | succ k => simp [List.replicate_succ]
  · intro a ha
    exact List.mem_takeWhile_imp (p := fun x : UInt8 => x != 0) ha

/-! ### Entries -/

lemma Dirent.ofBytes_bytes {de : Dirent} (h : de.inum < 2 ^ 16) : Dirent.ofBytes de.bytes = de := by
  obtain ⟨inum, name⟩ := de
  have hinum : inum % 256 + 256 * (inum / 256 % 256) = inum := by
    replace h : inum < 2 ^ 16 := h
    omega
  simp [ofBytes, bytes, hinum]

namespace File

variable (f : File)

/-- The directory entry at `off`. -/
def dirent (off : ℕ) : Dirent where
  inum := direntInum f.content off
  name := (List.range DIRSIZ).map fun t => f.content (off + 2 + t)

/-- The `k`-th entry is in use and has this name. -/
def Matches (name : CStr) (k : ℕ) : Prop :=
  16 * k < f.size ∧ (f.dirent (16 * k)).inum ≠ 0 ∧ namecmp name (f.dirent (16 * k)).name = 0

/-- The first entry of the name is the `k`-th one. -/
def Finds (name : CStr) (k : ℕ) : Prop :=
  f.Matches name k ∧ ∀ j < k, ¬f.Matches name j

/-- The `k`-th entry is the place for a new one: the first that is not in use, or the one behind the
last. -/
def Vacant (k : ℕ) : Prop :=
  16 * k < f.size + 16 ∧ (∀ j < k, (f.dirent (16 * j)).inum ≠ 0) ∧
    (16 * k < f.size → (f.dirent (16 * k)).inum = 0)

/-- There is no place for a new entry: the file has the maximum size, and all entries are in use. -/
def Full : Prop :=
  f.size = MAXFILE * BSIZE ∧ ∀ k, 16 * k < f.size → (f.dirent (16 * k)).inum ≠ 0

variable {f} {off : ℕ}

/-- The place behind the last entry is refused only if the file has the maximum size. -/
lemma Vacant.full (h : f.Vacant k) (hle : 16 * k ≤ f.size) (hsize : f.size ≤ MAXFILE * BSIZE)
    (hrefuse : f.Refuses (16 * k) 16) : f.Full := by
  obtain ⟨-, hbefore, -⟩ := h
  have hmax : f.size = MAXFILE * BSIZE ∧ 16 * k = f.size := by
    simp only [Refuses, MAXFILE, NDIRECT, NINDIRECT, BSIZE] at hrefuse hsize ⊢
    omega
  exact ⟨hmax.1, fun j hj => hbefore j (by omega)⟩

/-- The bytes of a whole entry. -/
lemma read_dirent (h : off + 16 ≤ f.size) (hsize : f.size < 2 ^ 32) :
    (f.read off 16).length = 16 ∧ Dirent.ofBytes (f.read off 16) = f.dirent off := by
  have hread : f.read off 16 = (List.range 16).map fun t => f.content (off + t) := by
    rw [File.read, if_neg (by omega), Nat.min_eq_left (by omega)]
  rw [hread]
  refine ⟨by simp, ?_⟩
  simp [Dirent.ofBytes, dirent, direntInum, List.range_succ_eq_map, DIRSIZ, Nat.add_assoc]

/-- Behind the last whole entry there are fewer bytes. -/
lemma length_read_lt (h : f.size < off + 16) : (f.read off 16).length < 16 := by
  unfold read
  split
  · simp
  · simp
    omega

end File

namespace Sound

variable {L : Layout} {F : Halt → Prop} {H : Handles} {A : Files} {s : State} {dp : Iref} {d : ℕ}

lemma size_lt (h : Sound L H A s) (n : ℕ) : (A n).size < 2 ^ 32 := by
  obtain ⟨V, -, -, rfl⟩ := h.volume
  exact Volume.files_size_lt

/-- A locked entry is referred to. -/
lemma count_pos_of_held (h : Sound L H A s) (hheld : dp ∈ H.held) : 0 < H.count dp := by
  obtain ⟨V, hrep, -⟩ := h.volume
  rw [← h.refs]
  exact (hrep.locked dp ((h.held dp).mpr hheld)).1

section

variable (hr : (dp, d) ∈ H.refs) (hheld : dp ∈ H.held)

include hr hheld

lemma wp_readDirent {Q : Dirent → State → Prop} {p : Panic} {off : ℕ} (h : Sound L H A s)
    (hF : (A d).size < off + 16 → F (.panic p))
    (hQ : off + 16 ≤ (A d).size → Q ((A d).dirent off) s) :
    wp F (readDirent L.toSuperblock dp off p) Q s := by
  simp only [readDirent, wp_bind, Dirent.size]
  apply h.wp_readi hr hheld (by decide)
  rintro r (rfl | ⟨-, t, -, ht⟩)
  · by_cases hwhole : off + 16 ≤ (A d).size
    · obtain ⟨hlength, hdirent⟩ := File.read_dirent hwhole (h.size_lt d)
      simp only [hlength, if_true, wp_pure, hdirent]
      exact hQ hwhole
    · have hshort := Nat.not_le.mp hwhole
      simp only [(File.length_read_lt hshort).ne, if_false, wp_panic]
      exact hF hshort
  · cases ht

variable {name : CStr} {fuel : ℕ} {Q : Option (Iref × ℕ) → State → Prop}

/-- The first entry of the name is found, and its inode referred to. -/
lemma wp_dirlookupFrom
    (h : Sound L H A s) (htype : (A d).type = T_DIR)
    (higet : (∀ ip, 0 < H.count ip) → F (.panic .igetNoInodes))
    (hread : (A d).size % 16 ≠ 0 → F (.panic .dirlookupRead))
    (hfuel : (A d).size / 16 < k + fuel) (hbefore : ∀ j < k, ¬(A d).Matches name j)
    (hnone : (∀ j, ¬(A d).Matches name j) → Q none s)
    (hsome : ∀ ip j s', (A d).Finds name j →
      Sound L (H.get ip ((A d).dirent (16 * j)).inum) A s' → ¬(s'.itable ip).Last →
      Q (some (ip, 16 * j)) s') :
    wp F (dirlookupFrom L.toSuperblock dp name fuel (16 * k)) Q s := by
  have hall : (A d).size ≤ 16 * k → Q none s := by
    intro hle
    apply hnone
    rintro j ⟨hj, hne⟩
    exact hbefore j (by omega) ⟨hj, hne⟩
  induction fuel generalizing k with
  | zero => exact hall (by omega)
  | succ fuel ih =>
    simp only [dirlookupFrom, wp_bind, wp_get, (h.fields hr hheld).2.2.2.2]
    apply wp_ite
    · intro hlt
      rw [wp_bind]
      apply h.wp_readDirent hr hheld
      · intro hshort
        exact hread (by omega)
      intro hwhole
      apply wp_ite
      · intro hmiss
        have hk : ¬(A d).Matches name k := by
          rintro ⟨-, hinum, hname⟩
          rcases hmiss with hzero | hne
          · exact hinum hzero
          · exact hne hname
        have hbefore' : ∀ j < k + 1, ¬(A d).Matches name j := by
          intro j hj
          rcases Nat.lt_succ_iff_lt_or_eq.mp hj with hj | rfl
          · exact hbefore j hj
          · exact hk
        apply ih (by omega) hbefore'
        intro hle
        apply hnone
        rintro j ⟨hj, hne⟩
        exact hbefore' j (by omega) ⟨hj, hne⟩
      · intro hhit
        rw [not_or, not_not] at hhit
        rw [wp_bind]
        apply h.wp_iget (h.dirs d (h.inum_lt hr) htype k) higet
        intro ip s' h' hlast
        exact hsome ip k s' ⟨⟨hlt, hhit.1, hhit.2⟩, hbefore⟩ h' hlast
    · intro hge
      exact hall (Nat.not_lt.mp hge)

lemma wp_dirlookup (h : Sound L H A s)
    (htype : (A d).type ≠ T_DIR → F (.panic .dirlookupNotDir))
    (higet : (∀ ip, 0 < H.count ip) → F (.panic .igetNoInodes))
    (hread : (A d).size % 16 ≠ 0 → F (.panic .dirlookupRead))
    (hnone : (A d).type = T_DIR → (∀ j, ¬(A d).Matches name j) → Q none s)
    (hsome : ∀ ip j s', (A d).type = T_DIR → (A d).Finds name j →
      Sound L (H.get ip ((A d).dirent (16 * j)).inum) A s' → ¬(s'.itable ip).Last →
      Q (some (ip, 16 * j)) s') :
    wp F (dirlookup L.toSuperblock dp name) Q s := by
  obtain ⟨hfield, -, -, -, hsize⟩ := h.fields hr hheld
  simp only [dirlookup, wp_bind, wp_get, hfield, hsize]
  apply wp_ite
  · exact htype
  · intro hdir
    have hdir := not_not.mp hdir
    apply h.wp_dirlookupFrom hr hheld (k := 0) hdir higet hread
    · simp only [Dirent.size]
      omega
    · exact fun j hj => absurd hj (Nat.not_lt_zero j)
    · exact hnone hdir
    · exact fun ip j s' => hsome ip j s' hdir

/-- The place for a new entry. -/
lemma wp_emptyDirent {Q : ℕ → State → Prop} (h : Sound L H A s)
    (hread : (A d).size % 16 ≠ 0 → F (.panic .dirlinkRead)) (hfuel : (A d).size / 16 < k + fuel)
    (hk : 16 * k ≤ (A d).size) (hbefore : ∀ j < k, ((A d).dirent (16 * j)).inum ≠ 0)
    (hQ : ∀ j, (A d).Vacant j → 16 * j ≤ (A d).size → Q (16 * j) s) :
    wp F (emptyDirent L.toSuperblock dp fuel (16 * k)) Q s := by
  have hend : (A d).size ≤ 16 * k → Q (16 * k) s :=
    fun hle => hQ k ⟨by omega, hbefore, fun hlt => absurd hlt (Nat.not_lt.mpr hle)⟩ hk
  induction fuel generalizing k with
  | zero => exact hend (by omega)
  | succ fuel ih =>
    simp only [emptyDirent, wp_bind, wp_get, (h.fields hr hheld).2.2.2.2]
    apply wp_ite
    · intro hlt
      rw [wp_bind]
      apply h.wp_readDirent hr hheld
      · intro hshort
        exact hread (by omega)
      intro hwhole
      apply wp_ite
      · intro hzero
        exact hQ k ⟨by omega, hbefore, fun _ => hzero⟩ hk
      · intro hne
        have hbefore' : ∀ j < k + 1, ((A d).dirent (16 * j)).inum ≠ 0 := by
          intro j hj
          rcases Nat.lt_succ_iff_lt_or_eq.mp hj with hj | rfl
          · exact hbefore j hj
          · exact hne
        apply ih (by omega) (by omega) hbefore'
        intro hle
        exact hQ (k + 1) ⟨by omega, hbefore', fun hlt => absurd hlt (Nat.not_lt.mpr hle)⟩ hwhole
    · intro hge
      exact hend (Nat.not_lt.mp hge)

variable {Q : Bool → State → Prop}

/-- Whether there are entries behind the first two. -/
lemma wp_isdiremptyFrom (h : Sound L H A s)
    (hread : (A d).size % 16 ≠ 0 → F (.panic .isdiremptyReadi)) (hfuel : (A d).size / 16 < k + fuel)
    (hempty : (∀ j, k ≤ j → 16 * j < (A d).size → ((A d).dirent (16 * j)).inum = 0) → Q true s)
    (hfull : ∀ j, k ≤ j → 16 * j < (A d).size → ((A d).dirent (16 * j)).inum ≠ 0 → Q false s) :
    wp F (isdiremptyFrom L.toSuperblock dp fuel (16 * k)) Q s := by
  induction fuel generalizing k with
  | zero =>
    apply hempty
    intro j hj hlt
    omega
  | succ fuel ih =>
    simp only [isdiremptyFrom, wp_bind, wp_get, (h.fields hr hheld).2.2.2.2]
    apply wp_ite
    · intro hlt
      rw [wp_bind]
      apply h.wp_readDirent hr hheld
      · intro hshort
        exact hread (by omega)
      intro hwhole
      apply wp_ite
      · intro hne
        exact hfull k le_rfl hlt hne
      · intro hzero
        apply ih (k := k + 1) (by omega)
        · intro hrest
          apply hempty
          intro j hj hlt'
          rcases hj.eq_or_lt with rfl | hj
          · exact not_not.mp hzero
          · exact hrest j hj hlt'
        · exact fun j hj => hfull j (by omega)
    · intro hge
      apply hempty
      intro j hj hlt
      omega

/-- An entry is written; the whole of it, since it comes from kernel memory. -/
lemma wp_writeDirent {Q : ℤ → State → Prop} {bs : List UInt8} (hF : Exhaustible F)
    (h : Sound L H A s) (hinum : direntInum (fun t => bs.getD t 0) 0 < L.ninodes)
    (hrefuse : (A d).Refuses (16 * k) 16 → Q (-1) s)
    (hQ : ∀ s', ¬(A d).Refuses (16 * k) 16 → Sound L H (Function.update A d
      ((A d).write (16 * k) 16 16 fun t => bs.getD t 0)) s' → Q 16 s') :
    wp F (writei L.toSuperblock dp (.kernel bs) (16 * k) Dirent.size) Q s := by
  have hbytes : (Source.kernel bs).bytes 0 = fun t => bs.getD t 0 := by
    funext t
    simp [Source.bytes, Source.kernel]
  have hsome : ∀ t < 16, (Source.kernel bs t).isSome := fun t _ => rfl
  apply h.wp_writei hr hheld hF (by decide)
  · intro tot c hall
    obtain ⟨rfl, rfl⟩ := hall hsome
    rw [hbytes]
    exact h.dirs.update_entry (h.inum_lt hr) (by omega) hinum
  · exact hrefuse
  · intro tot c s' haccept _ hall h'
    obtain ⟨rfl, rfl⟩ := hall hsome
    rw [hbytes] at h'
    exact hQ s' haccept h'

/-- Either the name is there already, or it is entered at the first vacant place. -/
lemma wp_dirlink {Q : ℤ → State → Prop} {inum : ℕ} (hF : Exhaustible F)
    (h : Sound L H A s) (hinum : inum % 2 ^ 16 < L.ninodes)
    (htype : (A d).type ≠ T_DIR → F (.panic .dirlookupNotDir))
    (higet : (∀ ip, 0 < H.count ip) → F (.panic .igetNoInodes))
    (hread : (A d).size % 16 ≠ 0 → F (.panic .dirlookupRead))
    (hread' : (A d).size % 16 ≠ 0 → F (.panic .dirlinkRead))
    (hlink : (A d).Full → F (.panic .dirlink))
    (hfound : ∀ j s', (A d).type = T_DIR → (A d).Finds name j → Sound L H A s' → Q (-1) s')
    (hnew : ∀ k s', (A d).type = T_DIR → (∀ j, ¬(A d).Matches name j) → (A d).Vacant k →
      ¬(A d).Refuses (16 * k) 16 → Sound L H (Function.update A d ((A d).write (16 * k) 16 16
        fun t => (Dirent.bytes ⟨inum % 2 ^ 16, strncpy DIRSIZ name⟩).getD t 0)) s' → Q 0 s') :
    wp F (dirlink L.toSuperblock dp name inum) Q s := by
  rw [dirlink, wp_bind]
  apply h.wp_dirlookup hr hheld htype higet hread
  · intro hdir hnone
    simp only [wp_bind, wp_get, (h.fields hr hheld).2.2.2.2]
    apply h.wp_emptyDirent hr hheld (k := 0) hread'
    · simp only [Dirent.size]
      omega
    · omega
    · exact fun j hj => absurd hj (Nat.not_lt_zero j)
    intro k hvacant hle
    rw [wp_bind]
    apply h.wp_writeDirent hr hheld hF
    · show (UInt8.ofNat (inum % 2 ^ 16)).toNat + 256 * (UInt8.ofNat (inum % 2 ^ 16 / 256)).toNat
        < L.ninodes
      simp only [UInt8.toNat_ofNat']
      omega
    · intro hrefuse
      rw [if_pos (by decide)]
      exact hlink (hvacant.full hle (h.size_le hr (by rw [hdir]; decide)) hrefuse)
    · intro s' haccept h'
      rw [if_neg (by decide)]
      exact hnew k s' hdir hnone hvacant haccept h'
  · intro ip j s₁ hdir hfinds h₁ hlast
    rw [wp_bind]
    apply h₁.wp_iput_of_not_last h.count_pos_of_held hlast
    exact fun s₂ h₂ => hfound j s₂ hdir hfinds h₂

lemma wp_isdirempty (h : Sound L H A s) (hread : (A d).size % 16 ≠ 0 → F (.panic .isdiremptyReadi))
    (hempty : (∀ j, 2 ≤ j → 16 * j < (A d).size → ((A d).dirent (16 * j)).inum = 0) → Q true s)
    (hfull : ∀ j, 2 ≤ j → 16 * j < (A d).size → ((A d).dirent (16 * j)).inum ≠ 0 → Q false s) :
    wp F (isdirempty L.toSuperblock dp) Q s := by
  simp only [isdirempty, wp_bind, wp_get, (h.fields hr hheld).2.2.2.2]
  apply h.wp_isdiremptyFrom hr hheld (k := 2) hread _ hempty hfull
  simp only [Dirent.size]
  omega

end

end Sound

end Xv6.Fs
