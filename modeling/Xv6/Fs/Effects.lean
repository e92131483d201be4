import Xv6.Fs.Calls
import Xv6.Fs.Resolve

/-!
# What calls do to the name space

The system calls that look up, enter and remove names, as changes of the files. A call that fails
leaves the files as they are.
-/

namespace Xv6.Fs

open Core Coroutine

/-! ### Files that are kept -/

/-- Every allocated inode that can be reached from `n` has a link or a reference. -/
def Files.Anchored (A : Files) (H : Handles) (n : ℕ) : Prop :=
  ∀ m, A.Reaches n m → (A m).type ≠ 0 → (A m).nlink = 0 → ∃ ip, (ip, m) ∈ H.refs

variable {H : Handles} {A : Files}

lemma Files.Anchored.walkable {F : Halt → Prop} [Lenient F] {n : ℕ}
    (h : A.Anchored H n) : Walkable F H A n where
  linked := h
  free _ _ _ := allowed (by decide)
  whole _ _ _ _ := allowed (by decide)
  table _ _ := allowed (by decide)

variable {A' : Files}

/-- A file that has a link or a further reference is not deleted. -/
lemma Dropped.eq {n : ℕ} (h : Dropped H n A A') (hkept : (A n).nlink = 0 → ∃ ip, (ip, n) ∈ H.refs) :
    A' = A := by
  rcases h with rfl | ⟨hlast, hlink, -⟩
  · rfl
  · obtain ⟨ip, hip⟩ := hkept hlink
    exact absurd hip (hlast ip)

/-- Files without links and references may be gone. -/
def Reaped (H : Handles) (A A' : Files) : Prop :=
  ∀ n, A' n = A n ∨ (A n).nlink = 0 ∧ (∀ ip, (ip, n) ∉ H.refs) ∧ A' n = (A n).delete

lemma Dropped.reaped {n : ℕ} (h : Dropped H n A A') : Reaped H A A' := by
  intro m
  rcases h with rfl | ⟨hlast, hlink, rfl⟩
  · exact .inl rfl
  rcases eq_or_ne m n with rfl | hne
  · exact .inr ⟨hlink, hlast, Function.update_self ..⟩
  · exact .inl (Function.update_of_ne hne ..)

/-! ### Links -/

namespace Files

/-- The link count of the file `m` is changed. -/
def setNlink (A : Files) (m : ℕ) (f : Int16 → Int16) : Files :=
  Function.update A m { A m with nlink := f (A m).nlink }

/-- The file `m` gets a name in the directory `d`. -/
def addLink (A : Files) (m d k : ℕ) (name : CStr) : Files :=
  Function.update (A.setNlink m (· + 1)) d
    ((A d).setDirent k ⟨m % 2 ^ 16, strncpy DIRSIZ name⟩)

/-- The `k`-th entry of the directory `d`, a name of the file `m`, is removed; the directory loses
the link from `m` if that is a directory. -/
def removeLink (A : Files) (m d k : ℕ) : Files :=
  let B : Files := Function.update A d ((A d).setDirent k File.emptyEntry)
  setNlink (if (A m).type = T_DIR then B.setNlink d (· - 1) else B) m (· - 1)

section SetNlink

variable {m n : ℕ} {f : Int16 → Int16}

lemma setNlink_of_ne (hn : n ≠ m) : A.setNlink m f n = A n := Function.update_of_ne hn ..

@[simp]
lemma setNlink_type : (A.setNlink m f n).type = (A n).type := by
  rcases eq_or_ne n m with rfl | hn
  · rw [setNlink, Function.update_self]
  · rw [setNlink_of_ne hn]

@[simp]
lemma setNlink_slots : (A.setNlink m f n).slots = (A n).slots := by
  rcases eq_or_ne n m with rfl | hn
  · rw [setNlink, Function.update_self]
    rfl
  · rw [setNlink_of_ne hn]

/-- A link count that was raised is taken back. -/
lemma setNlink_setNlink : (A.setNlink m (· + 1)).setNlink m (· - 1) = A := by
  funext n
  rcases eq_or_ne n m with rfl | hn
  · simp only [setNlink, Function.update_self, Int16.add_sub_cancel]
  · rw [setNlink_of_ne hn, setNlink_of_ne hn]

/-- Link counts do not matter for names. -/
lemma walk_setNlink {names : List CStr} : (A.setNlink m f).walk n names = A.walk n names := by
  induction names generalizing n with
  | nil => rfl
  | cons name names ih =>
    rw [walk, walk, setNlink_type, setNlink_slots]
    simp only [ih]

lemma walkParent_setNlink {names : List CStr} :
    (A.setNlink m f).walkParent n names = A.walkParent n names := by
  simp only [walkParent, walk_setNlink, setNlink_type]

/-- A file to which there is a reference may be without links. -/
lemma Anchored.setNlink {ip : Iref} (h : A.Anchored H n) :
    (A.setNlink m f).Anchored (H.get ip m) n := by
  rintro k ⟨names, hnames⟩ htype hlink
  rw [walk_setNlink] at hnames
  rcases eq_or_ne k m with rfl | hk
  · exact ⟨ip, Handles.mem_get_self⟩
  · rw [setNlink_of_ne hk] at htype hlink
    obtain ⟨jp, hjp⟩ := h k ⟨names, hnames⟩ htype hlink
    exact ⟨jp, Handles.mem_get.mpr (.inr hjp)⟩

end SetNlink

end Files

/-- The link count of a file is changed between the drops of two references. -/
lemma Reaped.of_dropped {ip : Iref} {d m : ℕ} {B : Files} {f : Int16 → Int16} (hne : m ≠ d)
    (hd : Dropped (H.get ip m) d A B) (hm : Dropped H m (B.setNlink m f) A') :
    Reaped H (A.setNlink m f) A' := by
  intro n
  have hB : B m = A m := by
    rcases hd with rfl | ⟨-, -, rfl⟩
    · rfl
    · exact Function.update_of_ne hne ..
  have hn := hm.reaped n
  rcases eq_or_ne n m with rfl | hnm
  · have hsame : B.setNlink n f n = A.setNlink n f n := by
      rw [Files.setNlink, Files.setNlink, Function.update_self, Function.update_self, hB]
    rwa [hsame] at hn
  · rw [Files.setNlink_of_ne hnm] at hn ⊢
    have hA' : A' n = B n := by
      rcases hm with rfl | ⟨-, -, rfl⟩
      · exact Files.setNlink_of_ne hnm
      · rw [Function.update_of_ne hnm, Files.setNlink_of_ne hnm]
    rw [hA']
    rcases hd.reaped n with hd | ⟨hlink, hlast, hd⟩
    · exact .inl hd
    · exact .inr ⟨hlink, fun jp hjp => hlast jp (Handles.mem_get.mpr (.inr hjp)), hd⟩

/-- The path names something that does not exist in a directory that does; `c` is the working
directory. -/
def Files.NewName (A : Files) (c : ℕ) (path : CStr) : Prop :=
  A.walkParent (startOf c path) (segments path) ≠ none ∧
    A.walk (startOf c path) (segments path) = none

/-- The part of `create` for a new name. -/
def createNew (sb : Superblock) (dp : Iref) (name : CStr) (type major minor : Int16) :
    FsM (Option Iref) := do
  let ip ← ialloc sb type
  ilock sb ip
  setInode ip fun i => { i with major := major, minor := minor, nlink := 1 }
  iupdate sb ip
  if type = T_DIR then
    createDots sb ip dp
    createLink sb dp ip name
  else
    createLink sb dp ip name

namespace Sound

variable {L : Layout} {F : Halt → Prop} [Lenient F] {s : State}
  {ip dp cwd : Iref} {m d c : ℕ}

omit [Lenient F] in
/-- Locked inodes are allocated. -/
lemma type_ne (h : Sound L H A s) (hr : (ip, m) ∈ H.refs) (hheld : ip ∈ H.held) :
    (A m).type ≠ 0 := by
  obtain ⟨V, hload, rfl⟩ := h.loaded hr hheld
  exact hload.allocated.2

lemma wp_lock {Q : PUnit → State → Prop} (h : Sound L H A s) (hr : (ip, m) ∈ H.refs)
    (hQ : ∀ s', ip ∉ H.held → Sound L (H.lock ip) A s' → Q ⟨⟩ s') :
    wp F (ilock L.toSuperblock ip) Q s :=
  h.wp_ilock hr (fun _ => allowed (by decide))
    (fun _ => allowed (by decide)) hQ

variable {Q : ℤ → State → Prop} {name : CStr} {type major minor : Int16}

lemma wp_lookup {Q : Option (Iref × ℕ) → State → Prop} (hd : (dp, d) ∈ H.refs)
    (hdp : dp ∈ H.held) (h : Sound L H A s)
    (hnone : (A d).type = T_DIR → (∀ j, ¬(A d).Matches name j) → Q none s)
    (hsome : ∀ ip j s', (A d).type = T_DIR → (A d).Finds name j →
      Sound L (H.get ip ((A d).dirent (16 * j)).inum) A s' → ¬(s'.itable ip).Last →
      Q (some (ip, 16 * j)) s') :
    wp F (dirlookup L.toSuperblock dp name) Q s :=
  h.wp_dirlookup hd hdp (fun _ => allowed (by decide))
    (fun _ => allowed (by decide))
    (fun _ => allowed (by decide)) hnone hsome

lemma wp_enter (hd : (dp, d) ∈ H.refs) (hdp : dp ∈ H.held)
    (hm : m < L.ninodes) (h : Sound L H A s) (hfull : (A d).Full → F (.panic .dirlink))
    (hfound : ∀ j s', (A d).type = T_DIR → (A d).Finds name j → Sound L H A s' → Q (-1) s')
    (hnew : ∀ k s', (A d).type = T_DIR → (∀ j, ¬(A d).Matches name j) → (A d).Vacant k →
      ¬(A d).Refuses (16 * k) 16 → Sound L H (Function.update A d
        ((A d).setDirent k ⟨m % 2 ^ 16, strncpy DIRSIZ name⟩)) s' → Q 0 s') :
    wp F (dirlink L.toSuperblock dp name m) Q s :=
  h.wp_dirlink hd hdp exhaustible ((Nat.mod_le _ _).trans_lt hm)
    (fun _ => allowed (by decide))
    (fun _ => allowed (by decide))
    (fun _ => allowed (by decide))
    (fun _ => allowed (by decide)) hfull hfound hnew

lemma wp_isFullDir {Q : Bool → State → Prop} (h : Sound L H A s) (hr : (ip, m) ∈ H.refs)
    (hip : ip ∈ H.held) (hQ : ∀ r, Q r s) : wp F (isFullDir L.toSuperblock ip) Q s := by
  simp only [isFullDir, wp_bind, wp_get]
  apply wp_ite
  · intro _
    rw [wp_bind]
    apply h.wp_isdirempty hr hip (fun _ => allowed (by decide))
    · exact fun _ => hQ _
    · exact fun _ _ _ _ => hQ _
  · exact fun _ => hQ _

omit [Lenient F] in
/-- The type of a file is on disk. -/
lemma type_eq (h : Sound L H A s) (hm : m < L.ninodes) :
    (A m).type = (s.dinode L.toSuperblock m).type := by
  obtain ⟨V, hrep, -, rfl⟩ := h.volume
  rw [hrep.inode m hm (by simp)]
  rfl

omit [Lenient F] in
/-- Directories name existing inodes. -/
lemma lt_of_reaches (h : Sound L H A s) {n : ℕ} (hn : n < L.ninodes) (hreach : A.Reaches n m) :
    m < L.ninodes := by
  obtain ⟨names, hnames⟩ := hreach
  induction names generalizing n with
  | nil => exact Option.some.inj hnames ▸ hn
  | cons name names ih =>
    rw [Files.walk] at hnames
    split at hnames
    · next htype =>
      obtain ⟨m', hlookup, hnames⟩ := Option.bind_eq_some_iff.mp hnames
      obtain ⟨j, -, hslot⟩ := Option.bind_eq_some_iff.mp hlookup
      refine ih ?_ hnames
      have hentry := h.dirs n hn htype j
      simp only [File.slots] at hslot
      split at hslot
      · cases hslot
      · rw [Option.map_some, Option.some.injEq] at hslot
        exact hslot ▸ hentry
    · cases hnames

section Calls

variable (hroot : ROOTINO < L.ninodes) (hcwd : (cwd, c) ∈ H.refs) (hout : ∀ jp, jp ∉ H.held)
  (hA : ∀ path, A.Anchored H (startOf c path))

include hout

lemma wp_linkBad (h : Sound L (H.get ip m) (A.setNlink m (· + 1)) s)
    (hkept : (A m).nlink = 0 → ∃ ip, (ip, m) ∈ H.refs) (hQ : ∀ s', Sound L H A s' → Q (-1) s') :
    wp F (linkBad L.toSuperblock ip) Q s := by
  have hr : (ip, m) ∈ (H.get ip m).refs := Handles.mem_get_self
  rw [linkBad, wp_bind]
  apply h.wp_lock hr
  intro s₁ _ h₁
  simp only [wp_bind, wp_setInode]
  apply h₁.wp_setNlink (H := (H.get ip m).lock ip) (f := (· - 1)) hr
    Handles.mem_lock_self exhaustible
  intro s₂ h₂
  have h₂ : Sound L ((H.get ip m).lock ip) ((A.setNlink m (· + 1)).setNlink m (· - 1)) s₂ := h₂
  rw [Files.setNlink_setNlink] at h₂
  rw [wp_bind]
  apply h₂.wp_iunlockput exhaustible (hout ip)
  intro s₃ A' hdrop h₃
  rw [hdrop.eq hkept] at h₃
  exact hQ s₃ h₃

include hroot hcwd hA

/-- Either nothing has changed, or there is one link more. -/
lemma wp_sysLink {old new : CStr} (h : Sound L H A s)
    (hfull : ∀ d, (A d).type = T_DIR → (A d).Full → F (.panic .dirlink))
    (hfail : ∀ s', Sound L H A s' → Q (-1) s')
    (hlink : ∀ m d k name A' s', A.walk (startOf c old) (segments old) = some m →
      A.walkParent (startOf c new) (segments new) = some (d, name) → (A m).type ≠ T_DIR →
      (∀ j, ¬(A d).Matches name j) → (A d).Vacant k → Dropped H m (A.addLink m d k name) A' →
      Sound L H A' s' → Q 0 s') :
    wp F (sysLink L.toSuperblock cwd old new) Q s := by
  rw [sysLink, wp_bind]
  apply h.wp_namei hroot hcwd hout (hA old).walkable
  · exact fun s₁ _ h₁ => hfail s₁ h₁
  intro ip m s₁ hold h₁
  have hr : (ip, m) ∈ (H.get ip m).refs := Handles.mem_get_self
  have hip : ip ∈ ((H.get ip m).lock ip).held := Handles.mem_lock_self
  rw [wp_bind]
  apply h₁.wp_lock hr
  intro s₂ _ h₂
  have hkept : (A m).nlink = 0 → ∃ ip, (ip, m) ∈ H.refs :=
    hA old m ⟨_, hold⟩ (h₂.type_ne hr hip)
  simp only [wp_bind, wp_get, (h₂.fields (H := (H.get ip m).lock ip) hr hip).1]
  apply wp_ite
  · intro _
    rw [wp_bind]
    apply h₂.wp_iunlockput exhaustible (hout ip)
    intro s₃ A' hdrop h₃
    rw [hdrop.eq hkept] at h₃
    exact hfail s₃ h₃
  intro htype
  simp only [wp_bind, wp_setInode]
  apply h₂.wp_setNlink (H := (H.get ip m).lock ip) (f := (· + 1)) hr hip exhaustible
  intro s₃ h₃
  rw [wp_bind]
  apply h₃.wp_iunlock (H := (H.get ip m).lock ip) hr hip
  intro s₄ h₄
  rw [Handles.unlock_lock (H := H.get ip m) (hout ip)] at h₄
  have h₄ : Sound L (H.get ip m) (A.setNlink m (· + 1)) s₄ := h₄
  rw [wp_bind]
  apply h₄.wp_nameiparent hroot (Handles.mem_get.mpr (.inr hcwd)) hout
    (hA new).setNlink.walkable
  · exact fun s₅ _ h₅ => h₅.wp_linkBad hout hkept hfail
  intro dp d name s₅ hnew h₅
  rw [Files.walkParent_setNlink] at hnew
  obtain ⟨hreach, hdir, -⟩ := Files.of_walkParent hnew
  have hne : d ≠ m := by
    rintro rfl
    exact htype hdir
  have hd : (dp, d) ∈ ((H.get ip m).get dp d).refs := Handles.mem_get_self
  have hdp : dp ∈ (((H.get ip m).get dp d).lock dp).held := Handles.mem_lock_self
  have hfile : A.setNlink m (· + 1) d = A d := Files.setNlink_of_ne hne
  have hkept' : (A d).nlink = 0 → ∃ jp, (jp, d) ∈ (H.get ip m).refs := by
    intro hzero
    obtain ⟨jp, hjp⟩ := hA new d hreach (by rw [hdir]; decide) hzero
    exact ⟨jp, Handles.mem_get.mpr (.inr hjp)⟩
  rw [wp_bind]
  apply h₅.wp_lock hd
  intro s₆ _ h₆
  have hinum : (s₆.itable ip).inum = m := h₆.inum (Handles.mem_get.mpr (.inr hr))
  simp only [wp_bind, wp_get, hinum]
  apply h₆.wp_enter (H := ((H.get ip m).get dp d).lock dp) hd hdp (h₁.inum_lt hr)
  · rw [hfile]
    exact hfull d hdir
  · intro j s₇ _ _ h₇
    rw [if_pos (by decide), wp_bind]
    apply h₇.wp_iunlockput (H := H.get ip m) exhaustible (hout dp)
    intro s₈ A' hdrop h₈
    rw [hdrop.eq (by rwa [hfile])] at h₈
    exact h₈.wp_linkBad hout hkept hfail
  · intro k s₇ _ hno hvacant _ h₇
    rw [hfile] at hno hvacant h₇
    rw [if_neg (by decide), wp_bind]
    apply h₇.wp_iunlockput (H := H.get ip m) exhaustible (hout dp)
    intro s₈ A' hdrop h₈
    rw [hdrop.eq (by rwa [Function.update_self])] at h₈
    rw [wp_bind]
    apply h₈.wp_iput exhaustible (fun hip => absurd hip (hout ip))
    exact fun s₉ A' hdrop h₉ => hlink m d k name A' s₉ hold hnew htype hno hvacant hdrop h₉

omit hroot hcwd hout hA in
lemma wp_unlinkBad (h : Sound L ((H.get dp d).lock dp) A s) (hdp : dp ∉ H.held)
    (hkept : (A d).nlink = 0 → ∃ ip, (ip, d) ∈ H.refs) (hQ : ∀ s', Sound L H A s' → Q (-1) s') :
    wp F (unlinkBad L.toSuperblock dp) Q s := by
  rw [unlinkBad, wp_bind]
  apply h.wp_iunlockput exhaustible hdp
  intro s₁ A' hdrop h₁
  rw [hdrop.eq hkept] at h₁
  exact hQ s₁ h₁

omit hroot hcwd hout hA in
lemma wp_unlinkParent {Q : PUnit → State → Prop} (h : Sound L H A s) (hd : (dp, d) ∈ H.refs)
    (hdp : dp ∈ H.held) (hr : (ip, m) ∈ H.refs) (hip : ip ∈ H.held)
    (hQ : ∀ s', Sound L H (if (A m).type = T_DIR then A.setNlink d (· - 1) else A) s' → Q ⟨⟩ s') :
    wp F (unlinkParent L.toSuperblock dp ip) Q s := by
  simp only [unlinkParent, wp_bind, wp_get, (h.fields hr hip).1]
  apply wp_ite
  · intro htype
    rw [if_pos htype] at hQ
    simp only [wp_bind, wp_setInode]
    exact h.wp_setNlink hd hdp (f := (· - 1)) exhaustible hQ
  · intro htype
    rw [if_neg htype] at hQ
    exact hQ s h

omit hroot hcwd hout hA in
lemma wp_unlinkEntry {k : ℕ} (h : Sound L ((((H.get dp d).lock dp).get ip m).lock ip) A s)
    (hdp : dp ∉ H.held) (hip : ip ∉ H.held) (hne : ip ≠ dp) (hne' : m ≠ d)
    (hQ : ∀ A' s', Reaped H (A.removeLink m d k) A' → Sound L H A' s' → Q 0 s') :
    wp F (unlinkEntry L.toSuperblock dp ip (16 * k)) Q s := by
  rw [Handles.lock_lock_comm] at h
  have hd : (dp, d) ∈ ((((H.get ip m).lock ip).get dp d).lock dp).refs :=
    Handles.mem_get_self
  have hdp' : dp ∈ ((((H.get ip m).lock ip).get dp d).lock dp).held :=
    Handles.mem_lock_self
  have hr : (ip, m) ∈ (H.get ip m).refs := Handles.mem_get_self
  have hip' : ip ∈ ((H.get ip m).lock ip).held := Handles.mem_lock_self
  rw [unlinkEntry, wp_bind]
  apply h.wp_writeDirent hd hdp' exhaustible
  · exact L.ninodes_pos
  · intro _
    rw [if_pos (by decide)]
    exact allowed (F := F) (by decide)
  intro s₁ _ h₁
  rw [File.write_zeros] at h₁
  rw [if_neg (by decide), wp_bind]
  apply h₁.wp_unlinkParent hd hdp' (Handles.mem_get.mpr (.inr hr))
    (Handles.mem_lock_held.mpr (.inr hip'))
  intro s₂ h₂
  rw [Function.update_of_ne hne'] at h₂
  rw [wp_bind]
  apply h₂.wp_iunlockput (H := (H.get ip m).lock ip) exhaustible
  · intro hmem
    rcases Handles.mem_lock_held.mp hmem with heq | hmem
    · exact hne heq.symm
    · exact hdp hmem
  intro s₃ B hd' h₃
  simp only [wp_bind, wp_setInode]
  apply h₃.wp_setNlink (H := (H.get ip m).lock ip) (f := (· - 1)) hr hip' exhaustible
  intro s₄ h₄
  rw [wp_bind]
  apply h₄.wp_iunlockput exhaustible hip
  intro s₅ A' hm h₅
  have hm : Dropped H m (B.setNlink m (· - 1)) A' := hm
  exact hQ A' s₅ (.of_dropped hne' hd' hm) h₅

/-- Either nothing has changed, or there is one link less. -/
lemma wp_sysUnlink {path : CStr} (h : Sound L H A s)
    (hfail : ∀ s', Sound L H A s' → Q (-1) s')
    (hunlink : ∀ m d k name A' s',
      A.walkParent (startOf c path) (segments path) = some (d, name) → (A d).Finds name k →
      m = ((A d).dirent (16 * k)).inum → Reaped H (A.removeLink m d k) A' →
      Sound L H A' s' → Q 0 s') :
    wp F (sysUnlink L.toSuperblock cwd path) Q s := by
  rw [sysUnlink, wp_bind]
  apply h.wp_nameiparent hroot hcwd hout (hA path).walkable
  · exact fun s₁ _ h₁ => hfail s₁ h₁
  intro dp d name s₁ hpath h₁
  obtain ⟨hreach, hdir, -⟩ := Files.of_walkParent hpath
  have hd : (dp, d) ∈ (H.get dp d).refs := Handles.mem_get_self
  have hdp : dp ∈ ((H.get dp d).lock dp).held := Handles.mem_lock_self
  have hkept : (A d).nlink = 0 → ∃ ip, (ip, d) ∈ H.refs := hA path d hreach (by rw [hdir]; decide)
  rw [wp_bind]
  apply h₁.wp_lock hd
  intro s₂ _ h₂
  apply wp_ite
  · exact fun _ => h₂.wp_unlinkBad (hout dp) hkept hfail
  intro _
  rw [wp_bind]
  apply h₂.wp_lookup (H := (H.get dp d).lock dp) hd hdp
  · exact fun _ _ => h₂.wp_unlinkBad (hout dp) hkept hfail
  intro ip k s₃ _ hfinds h₃ _
  generalize hm : ((A d).dirent (16 * k)).inum = m at h₃
  have hr : (ip, m) ∈ (((H.get dp d).lock dp).get ip m).refs :=
    Handles.mem_get_self
  simp only [wp_bind, wp_pause]
  apply h₃.wp_lock hr
  intro s₄ hip h₄
  have hne : ip ≠ dp := by
    rintro rfl
    exact hip hdp
  have hne' : m ≠ d := by
    rintro rfl
    exact hne (h₃.unique (Handles.mem_get.mpr (.inr hd)) hr)
  have hip' : ip ∈ ((((H.get dp d).lock dp).get ip m).lock ip).held :=
    Handles.mem_lock_self
  simp only [wp_bind, wp_get]
  apply wp_ite
  · exact fun _ => allowed (F := F) (by decide)
  intro _
  rw [wp_bind]
  apply h₄.wp_isFullDir (H := (((H.get dp d).lock dp).get ip m).lock ip) hr hip'
  intro full
  apply wp_ite
  · intro _
    rw [wp_bind]
    apply h₄.wp_iunlockput (H := (H.get dp d).lock dp) exhaustible hip
    intro s₅ A' hdrop h₅
    have hkept' : (A m).nlink = 0 → ∃ jp, (jp, m) ∈ ((H.get dp d).lock dp).refs := by
      intro hzero
      have hlookup := hfinds.lookup
      rw [hm] at hlookup
      obtain ⟨jp, hjp⟩ := hA path m (hreach.tail hdir hlookup)
        (h₄.type_ne (H := (((H.get dp d).lock dp).get ip m).lock ip) hr hip') hzero
      exact ⟨jp, Handles.mem_get.mpr (.inr hjp)⟩
    rw [hdrop.eq hkept'] at h₅
    exact h₅.wp_unlinkBad (hout dp) hkept hfail
  · intro _
    apply h₄.wp_unlinkEntry (hout dp) (hout ip) hne hne'
    exact fun A' s' => hunlink m d k name A' s' hpath hfinds hm.symm

omit hcwd hA in
lemma wp_sysChdir {Q : Option Iref → State → Prop} {path : CStr} (h : Sound L (H.get cwd c) A s)
    (hA : A.Anchored (H.get cwd c) (startOf c path))
    (hnone : ∀ s', Sound L (H.get cwd c) A s' → Q none s')
    (hsome : ∀ ip m A' s', Sound L (H.get ip m) A' s' → Q (some ip) s') :
    wp F (sysChdir L.toSuperblock cwd path) Q s := by
  rw [sysChdir, wp_bind]
  apply h.wp_namei hroot Handles.mem_get_self hout hA.walkable
  · exact fun s₁ _ h₁ => hnone s₁ h₁
  intro ip m s₁ hpath h₁
  have hr : (ip, m) ∈ ((H.get cwd c).get ip m).refs := Handles.mem_get_self
  have hip : ip ∈ (((H.get cwd c).get ip m).lock ip).held := Handles.mem_lock_self
  rw [wp_bind]
  apply h₁.wp_lock hr
  intro s₂ _ h₂
  simp only [wp_bind, wp_get]
  apply wp_ite
  · intro _
    rw [wp_bind]
    apply h₂.wp_iunlockput (H := H.get cwd c) exhaustible (hout ip)
    intro s₃ A' hdrop h₃
    rw [hdrop.eq (hA m ⟨_, hpath⟩ (h₂.type_ne (H := ((H.get cwd c).get ip m).lock ip) hr hip))]
      at h₃
    exact hnone s₃ h₃
  intro _
  rw [wp_bind]
  apply h₂.wp_iunlock (H := ((H.get cwd c).get ip m).lock ip) hr hip
  intro s₃ h₃
  rw [Handles.unlock_lock (H := (H.get cwd c).get ip m) (hout ip), Handles.get_comm] at h₃
  rw [wp_bind]
  apply h₃.wp_iput exhaustible (fun hip => absurd hip (hout cwd))
  exact fun s₄ A' _ h₄ => hsome ip m A' s₄ h₄

end Calls

/-! ### New files -/

/-- The entries `"."` and `".."` are entered into an empty directory without trouble. -/
lemma wp_createDots {Q : PUnit → State → Prop} (h : Sound L H A s) (hr : (ip, m) ∈ H.refs)
    (hip : ip ∈ H.held) (hd : (dp, d) ∈ H.refs) (hdp : dp ∈ H.held) (hne : m ≠ d)
    (hsize : (A m).size = 0)
    (hQ : ∀ f s', f.type = (A m).type → f.nlink = (A m).nlink →
      Sound L H (Function.update (A.setNlink d (· + 1)) m f) s' → Q ⟨⟩ s') :
    wp F (createDots L.toSuperblock ip dp) Q s := by
  simp only [createDots, wp_bind, wp_setInode]
  apply h.wp_setNlink hd hdp (f := (· + 1)) exhaustible
  intro s₁ h₁
  have h₁ : Sound L H (A.setNlink d (· + 1)) s₁ := h₁
  have hfile : A.setNlink d (· + 1) m = A m := Files.setNlink_of_ne hne
  simp only [wp_bind, wp_get, h₁.inum hr]
  apply h₁.wp_enter hr hip (h₁.inum_lt hr)
  · rw [hfile]
    rintro ⟨hmax, -⟩
    rw [hsize] at hmax
    cases hmax
  · rw [hfile]
    rintro j s₂ - ⟨⟨hj, -⟩, -⟩ -
    omega
  rw [hfile]
  intro k s₂ _ hno hvacant _ h₂
  obtain rfl : k = 0 := by
    have hk := hvacant.1
    omega
  rw [if_neg (by decide)]
  simp only [wp_bind, wp_get, h₂.inum hd]
  -- now there is one entry, of another name
  obtain ⟨-, hlookup⟩ := File.lookup_setDirent (File.slots_unique_of_size hsize) (by rw [hsize])
    hno hvacant (Nat.mod_lt m (by decide))
  apply h₂.wp_enter hr hip (h₂.inum_lt hd)
  · rw [Function.update_self]
    rintro ⟨hmax, -⟩
    have hmax : max (A m).size 16 = MAXFILE * BSIZE := hmax
    rw [hsize] at hmax
    cases hmax
  · rw [Function.update_self]
    intro j s₃ _ hfinds _
    have hdots := hfinds.lookup.symm.trans (hlookup dotdot)
    rw [if_neg (by decide), File.lookup_eq_none_of_matches] at hdots
    · cases hdots
    · rintro i ⟨hi, -⟩
      omega
  · rw [Function.update_self]
    intro k s₃ _ _ _ _ h₃
    rw [Function.update_idem] at h₃
    rw [if_neg (by decide)]
    apply hQ _ s₃ _ _ h₃
    · rfl
    · rfl

/-- The new inode is entered under a name that is not there, unless the directory is full. -/
lemma wp_createLink {Q : Option Iref → State → Prop}
    (h : Sound L ((((H.get dp d).lock dp).get ip m).lock ip) A s) (hdp : dp ∉ H.held)
    (hne : dp ≠ ip) (hno : ∀ j, ¬(A d).Matches name j)
    (hfull : (A d).Full → F (.panic .dirlink))
    (hQ : ∀ k A' s', Dropped (H.get ip m) d (Function.update A d
      ((A d).setDirent k ⟨m % 2 ^ 16, strncpy DIRSIZ name⟩)) A' →
      Sound L ((H.get ip m).lock ip) A' s' → Q (some ip) s') :
    wp F (createLink L.toSuperblock dp ip name) Q s := by
  rw [Handles.lock_lock_comm] at h
  have hd : (dp, d) ∈ ((((H.get ip m).lock ip).get dp d).lock dp).refs :=
    Handles.mem_get_self
  have hr : (ip, m) ∈ ((((H.get ip m).lock ip).get dp d).lock dp).refs :=
    Handles.mem_get.mpr (.inr Handles.mem_get_self)
  simp only [createLink, wp_bind, wp_get, h.inum hr]
  apply h.wp_enter hd Handles.mem_lock_self (h.inum_lt hr)
  · exact hfull
  · exact fun j s₁ _ hfinds _ => absurd hfinds.1 (hno j)
  intro k s₁ _ _ _ _ h₁
  rw [if_neg (by decide), wp_bind]
  apply h₁.wp_iunlockput (H := (H.get ip m).lock ip) exhaustible
  · intro hmem
    rcases Handles.mem_lock_held.mp hmem with heq | hmem
    · exact hne heq
    · exact hdp hmem
  · exact fun s₂ A' hdrop h₂ => hQ k A' s₂ hdrop h₂

lemma wp_createNew {Q : Option Iref → State → Prop}
    (h : Sound L ((H.get dp d).lock dp) A s) (hout : ∀ jp, jp ∉ H.held) (hdir : (A d).type = T_DIR)
    (hno : ∀ j, ¬(A d).Matches name j) (hfull : (A d).Full → F (.panic .dirlink))
    (hQ : ∀ ip m A' s', (A m).type = 0 → (A' m).type = type → (A' m).nlink = 1 →
      Sound L ((H.get ip m).lock ip) A' s' → Q (some ip) s') :
    wp F (createNew L.toSuperblock dp name type major minor) Q s := by
  have hd : (dp, d) ∈ (H.get dp d).refs := Handles.mem_get_self
  have hdp : dp ∈ ((H.get dp d).lock dp).held := Handles.mem_lock_self
  rw [createNew, wp_bind]
  apply h.wp_ialloc exhaustible (allowed (by decide))
    (allowed (by decide))
  intro m ip s₁ _ hfree h₁
  have hm : (ip, m) ∈ (((H.get dp d).lock dp).get ip m).refs :=
    Handles.mem_get_self
  have hd' : (dp, d) ∈ (((H.get dp d).lock dp).get ip m).refs := Handles.mem_get.mpr (.inr hd)
  have hmd : m ≠ d := by
    rintro rfl
    rw [hdir] at hfree
    cases hfree
  rw [wp_bind]
  apply h₁.wp_lock hm
  intro s₂ hip h₂
  have hne : dp ≠ ip := by
    rintro rfl
    exact hip hdp
  have hip' : ip ∈ ((((H.get dp d).lock dp).get ip m).lock ip).held :=
    Handles.mem_lock_self
  simp only [wp_bind, wp_setInode]
  apply h₂.wp_initInode (H := (((H.get dp d).lock dp).get ip m).lock ip) hm hip'
    exhaustible
  intro s₃ h₃
  rw [Function.update_self, Function.update_idem] at h₃
  have hlink : ∀ B s₄, (B m).type = type → (B m).nlink = 1 → (∀ j, ¬(B d).Matches name j) →
      ((B d).Full → F (.panic .dirlink)) →
      Sound L ((((H.get dp d).lock dp).get ip m).lock ip) B s₄ →
      wp F (createLink L.toSuperblock dp ip name) Q s₄ := by
    intro B s₄ htype hnlink hno' hfull' h₄
    apply h₄.wp_createLink (hout dp) hne hno' hfull'
    intro k A' s₅ hdrop h₅
    have hA' : A' m = B m := by
      rcases hdrop with rfl | ⟨-, -, rfl⟩
      · exact Function.update_of_ne hmd ..
      · rw [Function.update_of_ne hmd, Function.update_of_ne hmd]
    exact hQ ip m A' s₅ hfree (by rw [hA', htype]) (by rw [hA', hnlink]) h₅
  have hother : ∀ f, Function.update A m f d = A d := fun f => Function.update_of_ne hmd.symm ..
  apply wp_ite
  · intro _
    rw [wp_bind]
    apply h₃.wp_createDots hm hip' hd' (Handles.mem_lock_held.mpr (.inr hdp)) hmd
    · rw [Function.update_self]
      rfl
    intro f s₄ hftype hfnlink h₄
    rw [Function.update_self] at hftype hfnlink
    have hfile : ∀ f', Function.update (Files.setNlink (Function.update A m f') d (· + 1)) m f d
        = { A d with nlink := (A d).nlink + 1 } := by
      intro f'
      rw [Function.update_of_ne hmd.symm, Files.setNlink, Function.update_self, hother]
    apply hlink _ s₄ _ _ _ _ h₄
    · rw [Function.update_self, hftype]
      rfl
    · rw [Function.update_self, hfnlink]
    · rw [hfile]
      exact hno
    · rw [hfile]
      exact hfull
  · intro _
    apply hlink _ s₃ _ _ _ _ h₃
    · rw [Function.update_self]
      rfl
    · rw [Function.update_self]
    · rw [hother]
      exact hno
    · rw [hother]
      exact hfull

section Create

variable (hroot : ROOTINO < L.ninodes) (hcwd : (cwd, c) ∈ H.refs) (hout : ∀ jp, jp ∉ H.held)
  {path : CStr} (hA : A.Anchored H (startOf c path))

include hroot hcwd hout hA

/-- `create` finds a file and locks it, or makes one, or fails and leaves everything as it is. -/
lemma wp_create {Q : Option Iref → State → Prop} (h : Sound L H A s)
    (hfull : ∀ d, (A d).type = T_DIR → (A d).Full → F (.panic .dirlink))
    (hnone : ∀ s', ¬A.NewName c path → Sound L H A s' → Q none s')
    (hfound : ∀ ip m s', ¬A.NewName c path → A.Reaches (startOf c path) m → type = T_FILE →
      Sound L ((H.get ip m).lock ip) A s' → Q (some ip) s')
    (hnew : ∀ ip m A' s', A.NewName c path → (A m).type = 0 → (A' m).type = type →
      (A' m).nlink = 1 → Sound L ((H.get ip m).lock ip) A' s' → Q (some ip) s') :
    wp F (create L.toSuperblock cwd path type major minor) Q s := by
  rw [create, wp_bind]
  apply h.wp_nameiparent hroot hcwd hout hA.walkable
  · exact fun s₁ hpath h₁ => hnone s₁ (fun hnew => hnew.1 hpath) h₁
  intro dp d name s₁ hpath h₁
  obtain ⟨hreach, hdir, hwalk⟩ := Files.of_walkParent hpath
  have hd : (dp, d) ∈ (H.get dp d).refs := Handles.mem_get_self
  have hdp : dp ∈ ((H.get dp d).lock dp).held := Handles.mem_lock_self
  rw [wp_bind]
  apply h₁.wp_lock hd
  intro s₂ _ h₂
  rw [wp_bind]
  apply h₂.wp_lookup (H := (H.get dp d).lock dp) hd hdp
  · intro _ hno
    apply h₂.wp_createNew hout hdir hno (hfull d hdir)
    refine fun ip m A' s' => hnew ip m A' s' ⟨?_, ?_⟩
    · rw [hpath]
      exact Option.some_ne_none _
    · rw [hwalk, File.lookup_eq_none_of_matches hno]
  intro ip k s₃ _ hfinds h₃ _
  have hlookup := hfinds.lookup
  generalize ((A d).dirent (16 * k)).inum = m at h₃ hlookup
  rw [hlookup] at hwalk
  have hold : ¬A.NewName c path := by
    rintro ⟨-, hnone⟩
    rw [hwalk] at hnone
    cases hnone
  rw [Handles.lock_get_comm] at h₃
  rw [wp_bind]
  apply h₃.wp_iunlockput (H := H.get ip m) exhaustible (hout dp)
  intro s₄ A₁ hdrop h₄
  rw [hdrop.eq fun hzero => ?_] at h₄
  · have hm : (ip, m) ∈ (H.get ip m).refs := Handles.mem_get_self
    have hip : ip ∈ ((H.get ip m).lock ip).held := Handles.mem_lock_self
    rw [wp_bind]
    apply h₄.wp_lock hm
    intro s₅ _ h₅
    simp only [wp_bind, wp_get]
    apply wp_ite
    · exact fun htype => hfound ip m s₅ hold ⟨_, hwalk⟩ htype.1 h₅
    · intro _
      rw [wp_bind]
      apply h₅.wp_iunlockput exhaustible (hout ip)
      intro s₆ A₂ hdrop' h₆
      rw [hdrop'.eq (hA m (hreach.tail hdir hlookup)
        (h₅.type_ne (H := (H.get ip m).lock ip) hm hip))] at h₆
      exact hnone s₆ hold h₆
  · obtain ⟨jp, hjp⟩ := hA d hreach (by rw [hdir]; decide) hzero
    exact ⟨jp, Handles.mem_get.mpr (.inr hjp)⟩

/-- `mkdir` and `mknod` fail without a change. -/
lemma wp_sysMake (h : Sound L H A s)
    (hfull : ∀ d, (A d).type = T_DIR → (A d).Full → F (.panic .dirlink))
    (hfail : ∀ s', Sound L H A s' → Q (-1) s') (hQ : ∀ A' s', Sound L H A' s' → Q 0 s') :
    wp F (sysMake L.toSuperblock cwd path type major minor) Q s := by
  rw [sysMake, wp_bind]
  apply h.wp_create hroot hcwd hout hA hfull (fun s₁ _ => hfail s₁)
  · intro ip m s₁ _ _ _ h₁
    rw [wp_bind]
    apply h₁.wp_iunlockput exhaustible (hout ip)
    exact fun s₂ A' _ h₂ => hQ A' s₂ h₂
  · intro ip m A₁ s₁ _ _ _ _ h₁
    rw [wp_bind]
    apply h₁.wp_iunlockput exhaustible (hout ip)
    exact fun s₂ A' _ h₂ => hQ A' s₂ h₂

/-- `open` finds an inode and locks it, or makes one, or fails and leaves everything as it is. -/
lemma wp_openInode {Q : Option Iref → State → Prop} {omode : ℕ} (h : Sound L H A s)
    (hfull : ∀ d, (A d).type = T_DIR → (A d).Full → F (.panic .dirlink))
    (hnone : ∀ s', ¬(omode &&& O_CREATE ≠ 0 ∧ A.NewName c path) → Sound L H A s' → Q none s')
    (hfound : ∀ ip m s', ¬(omode &&& O_CREATE ≠ 0 ∧ A.NewName c path) →
      A.Reaches (startOf c path) m → Sound L ((H.get ip m).lock ip) A s' → Q (some ip) s')
    (hnew : ∀ ip m A' s', omode &&& O_CREATE ≠ 0 ∧ A.NewName c path → (A m).type = 0 →
      (A' m).type = T_FILE → (A' m).nlink = 1 → Sound L ((H.get ip m).lock ip) A' s' →
      Q (some ip) s') :
    wp F (openInode L.toSuperblock cwd path omode) Q s := by
  rw [openInode]
  apply wp_ite
  · intro hcreate
    apply h.wp_create hroot hcwd hout hA hfull
    · exact fun s₁ hold => hnone s₁ fun hnew => hold hnew.2
    · exact fun ip m s₁ hold hreach _ => hfound ip m s₁ (fun hnew => hold hnew.2) hreach
    · exact fun ip m A' s₁ hname => hnew ip m A' s₁ ⟨hcreate, hname⟩
  intro hcreate
  have hold : ¬(omode &&& O_CREATE ≠ 0 ∧ A.NewName c path) := fun hnew => hcreate hnew.1
  rw [wp_bind]
  apply h.wp_namei hroot hcwd hout hA.walkable
  · exact fun s₁ _ => hnone s₁ hold
  intro ip m s₁ hwalk h₁
  have hm : (ip, m) ∈ (H.get ip m).refs := Handles.mem_get_self
  have hip : ip ∈ ((H.get ip m).lock ip).held := Handles.mem_lock_self
  rw [wp_bind]
  apply h₁.wp_lock hm
  intro s₂ _ h₂
  simp only [wp_bind, wp_get]
  apply wp_ite
  · intro _
    rw [wp_bind]
    apply h₂.wp_iunlockput exhaustible (hout ip)
    intro s₃ A' hdrop h₃
    rw [hdrop.eq (hA m ⟨_, hwalk⟩ (h₂.type_ne (H := (H.get ip m).lock ip) hm hip))] at h₃
    exact hnone s₃ hold h₃
  · exact fun _ => hfound ip m s₂ hold ⟨_, hwalk⟩ h₂

end Create

end Sound

end Xv6.Fs
