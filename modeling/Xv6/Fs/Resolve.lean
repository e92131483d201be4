import Xv6.Fs.Path

/-!
# Looking up paths

`namex` walks through the directories as the path says, and leaves the files as they are. It needs
every inode on its way to have a link or a reference besides its own, since it drops the references
that it takes.
-/

namespace Xv6.Fs

open Core Coroutine

/-- What a walk from the inode `n` meets: inodes that are not freed when the reference is dropped,
and else a reason to stop. -/
structure Walkable (F : Halt → Prop) (H : Handles) (A : Files) (n : ℕ) : Prop where
  linked : ∀ m, A.Reaches n m → (A m).type ≠ 0 → (A m).nlink = 0 → ∃ ip, (ip, m) ∈ H.refs
  free : ∀ m, A.Reaches n m → (A m).type = 0 → F (.panic .ilockNoType)
  whole : ∀ m, A.Reaches n m → (A m).type = T_DIR → (A m).size % 16 ≠ 0 →
    F (.panic .dirlookupRead)
  table : ∀ ip, (∀ jp, jp ≠ ip → 0 < H.count jp) → F (.panic .igetNoInodes)

namespace Walkable

variable {F : Halt → Prop} {H : Handles} {A : Files} {n m : ℕ} {name : CStr}

lemma of_reaches (h : Walkable F H A n) (hm : ∀ k, A.Reaches m k → A.Reaches n k) :
    Walkable F H A m where
  linked k hk := h.linked k (hm k hk)
  free k hk := h.free k (hm k hk)
  whole k hk := h.whole k (hm k hk)
  table := h.table

lemma step (h : Walkable F H A n) (htype : (A n).type = T_DIR)
    (hlookup : (A n).slots.lookup (name.clip DIRSIZ) = some m) : Walkable F H A m :=
  h.of_reaches fun _ hk => hk.step htype hlookup

/-- With one reference more, all entries are in use. -/
lemma full (h : Walkable F H A n) (ip : Iref) (m : ℕ)
    (hfull : ∀ jp, 0 < ((H.get ip m).lock ip).count jp) : F (.panic .igetNoInodes) := by
  apply h.table ip
  intro jp hjp
  have := hfull jp
  rwa [Handles.count_lock, Handles.count_get_of_ne hjp] at this

end Walkable

lemma Handles.count_le_get {H : Handles} {ip jp : Iref} {n : ℕ} :
    H.count jp ≤ (H.get ip n).count jp :=
  Multiset.countP_le_of_le _ (Multiset.le_cons_self _ _)

variable {Q : Option (Iref × CStr) → State → Prop} {parent : Bool}

namespace Sound

variable {L : Layout} {F : Halt → Prop} {H : Handles} {A : Files} {s : State} {ip : Iref} {n : ℕ}

lemma count_pos_of_linked (h : Sound L (H.get ip n) A s) (hlinked : ∃ jp, (jp, n) ∈ H.refs) :
    0 < H.count ip := by
  obtain ⟨jp, hjp⟩ := hlinked
  obtain rfl := h.unique Handles.mem_get_self (Handles.mem_get.mpr (.inr hjp))
  exact Handles.count_pos hjp

lemma wp_namexEnd {name : CStr}
    (h : Sound L (H.get ip n) A s) (hheld : ip ∉ H.held) (hwalk : Walkable F H A n)
    (hnone : ∀ s', A.resolve parent n name [] = none → Sound L H A s' → Q none s')
    (hsome : ∀ ip m name' s', A.resolve parent n name [] = some (m, name') →
      Sound L (H.get ip m) A s' → Q (some (ip, name')) s') :
    wp F (namexEnd L.toSuperblock parent ip name) Q s := by
  rw [Files.resolve_nil] at hnone hsome
  rw [namexEnd]
  apply wp_ite
  · intro hparent
    rw [if_pos hparent] at hnone
    rw [wp_bind]
    apply h.wp_iput_of_not_last (fun hip => absurd hip hheld)
    · apply h.not_last
      exact fun htype hlink => h.count_pos_of_linked (hwalk.linked n .refl htype hlink)
    · exact fun s' h' => hnone s' rfl h'
  · intro hparent
    rw [if_neg hparent] at hsome
    exact hsome ip n name s rfl h

lemma wp_namexFrom {fuel : ℕ}
    {path name : CStr} (h : Sound L (H.get ip n) A s) (hout : ∀ jp, jp ∉ H.held)
    (hwalk : Walkable F H A n) (hfuel : path.length ≤ fuel)
    (hnone : ∀ s', A.resolve parent n name (segments path) = none → Sound L H A s' → Q none s')
    (hsome : ∀ ip m name' s', A.resolve parent n name (segments path) = some (m, name') →
      Sound L (H.get ip m) A s' → Q (some (ip, name')) s') :
    wp F (namexFrom L.toSuperblock parent fuel ip path name) Q s := by
  induction fuel generalizing ip n path name s with
  | zero =>
    obtain rfl := List.length_eq_zero_iff.mp (Nat.le_zero.mp hfuel)
    exact h.wp_namexEnd (hout ip) hwalk hnone hsome
  | succ fuel ih =>
    rw [namexFrom]
    split
    · next hskip =>
      rw [skipelem_eq_none_iff.mp hskip] at hnone hsome
      exact h.wp_namexEnd (hout ip) hwalk hnone hsome
    next elem rest hskip =>
    have hlt := length_lt_of_skipelem hskip
    have hrest := eq_nil_iff_of_skipelem hskip
    rw [segments_of_skipelem hskip, Files.resolve_cons] at hnone hsome
    have hr : (ip, n) ∈ (H.get ip n).refs := Handles.mem_get_self
    have hlocked : ip ∈ ((H.get ip n).lock ip).held := Handles.mem_lock_self
    have hlink : (A n).type ≠ 0 → (A n).nlink = 0 → 0 < H.count ip := fun htype hlink =>
      h.count_pos_of_linked (hwalk.linked n .refl htype hlink)
    rw [wp_bind]
    apply h.wp_ilock hr (fun hip => absurd hip (hout ip)) (hwalk.free n .refl)
    intro s₁ _ h₁
    simp only [wp_bind, wp_get, (h₁.fields (H := (H.get ip n).lock ip) hr hlocked).1]
    apply wp_ite
    · intro htype
      rw [if_pos htype] at hnone
      rw [wp_bind]
      exact h₁.wp_iunlockput_of_link (hout ip) hlink fun s₂ => hnone s₂ rfl
    intro htype
    rw [if_neg htype] at hnone hsome
    rw [not_not] at htype
    apply wp_ite
    · intro hlast
      rw [if_pos ⟨hlast.1, hrest.mp hlast.2⟩] at hsome
      rw [wp_bind]
      apply h₁.wp_iunlock (H := (H.get ip n).lock ip) hr hlocked
      intro s₂ h₂
      rw [Handles.unlock_lock (H := H.get ip n) (hout ip)] at h₂
      exact hsome ip n elem s₂ rfl h₂
    intro hlast
    rw [if_neg fun hlast' => hlast ⟨hlast'.1, hrest.mpr hlast'.2⟩] at hnone hsome
    rw [wp_bind]
    apply h₁.wp_dirlookup (H := (H.get ip n).lock ip) hr hlocked
    · exact fun hne => absurd htype hne
    · exact hwalk.full ip n
    · exact hwalk.whole n .refl htype
    · intro _ hno
      rw [File.lookup_eq_none_of_matches hno] at hnone
      rw [wp_bind]
      exact h₁.wp_iunlockput_of_link (hout ip) hlink fun s₂ => hnone s₂ rfl
    · intro next k s₂ _ hfinds h₂ _
      have hlookup := hfinds.lookup
      rw [hlookup, Option.bind_some] at hnone hsome
      rw [Handles.lock_get_comm] at h₂
      rw [wp_bind]
      -- the new reference is kept while the directory is put
      apply h₂.wp_iunlockput_of_link (hout ip)
      · intro hne hzero
        exact (hlink hne hzero).trans_le Handles.count_le_get
      · intro s₃ h₃
        exact ih h₃ (hwalk.step htype hlookup) (by omega) hnone hsome

end Sound

/-- The number of the inode from which a path starts, if `c` is that of the working directory. -/
def startOf (c : ℕ) (path : CStr) : ℕ := if path.head? = some slash then ROOTINO else c

namespace Sound

variable {L : Layout} {F : Halt → Prop} {H : Handles} {A : Files} {s : State} {cwd : Iref} {c : ℕ}
  {path : CStr}

section Lookup

variable (hroot : ROOTINO < L.ninodes) (hcwd : (cwd, c) ∈ H.refs) (hout : ∀ jp, jp ∉ H.held)
  (hwalk : Walkable F H A (startOf c path))

include hroot hcwd hout hwalk

lemma wp_namex (h : Sound L H A s)
    (hnone : ∀ s', A.resolve parent (startOf c path) [] (segments path) = none → Sound L H A s' →
      Q none s')
    (hsome : ∀ ip m name s', A.resolve parent (startOf c path) [] (segments path) = some (m, name) →
      Sound L (H.get ip m) A s' → Q (some (ip, name)) s') :
    wp F (namex L.toSuperblock cwd path parent) Q s := by
  rw [namex]
  apply wp_ite
  · intro hslash
    rw [startOf, if_pos hslash] at hwalk hnone hsome
    rw [wp_bind]
    apply h.wp_iget hroot (fun hfull => hwalk.table cwd fun jp _ => hfull jp)
    exact fun ip s₁ h₁ _ => h₁.wp_namexFrom hout hwalk le_rfl hnone hsome
  · intro hslash
    rw [startOf, if_neg hslash] at hwalk hnone hsome
    rw [wp_bind]
    apply h.wp_idup hcwd
    exact fun s₁ h₁ => h₁.wp_namexFrom hout hwalk le_rfl hnone hsome

lemma wp_namei {Q : Option Iref → State → Prop} (h : Sound L H A s)
    (hnone : ∀ s', A.walk (startOf c path) (segments path) = none → Sound L H A s' → Q none s')
    (hsome : ∀ ip m s', A.walk (startOf c path) (segments path) = some m →
      Sound L (H.get ip m) A s' → Q (some ip) s') :
    wp F (namei L.toSuperblock cwd path) Q s := by
  rw [namei, wp_bind]
  apply h.wp_namex hroot hcwd hout hwalk
  · exact fun s' hnot => hnone s' (Option.map_eq_none_iff.mp hnot)
  · intro ip m name s' hfound h'
    obtain ⟨m', hwalk', heq⟩ := Option.map_eq_some_iff.mp hfound
    obtain ⟨rfl, -⟩ := Prod.mk.inj heq
    exact hsome ip m' s' hwalk' h'

lemma wp_nameiparent (h : Sound L H A s)
    (hnone : ∀ s', A.walkParent (startOf c path) (segments path) = none → Sound L H A s' →
      Q none s')
    (hsome : ∀ dp d name s', A.walkParent (startOf c path) (segments path) = some (d, name) →
      Sound L (H.get dp d) A s' → Q (some (dp, name)) s') :
    wp F (nameiparent L.toSuperblock cwd path) Q s :=
  h.wp_namex hroot hcwd hout hwalk hnone hsome

end Lookup

end Sound

/-! ### Well-formed name spaces -/

/-- Every inode that can be reached from `n` is allocated, has whole entries if it is a directory,
and is kept by a link or a reference. -/
structure Files.WellLinked (A : Files) (H : Handles) (n : ℕ) : Prop where
  allocated : ∀ m, A.Reaches n m → (A m).type ≠ 0
  whole : ∀ m, A.Reaches n m → (A m).type = T_DIR → (A m).size % 16 = 0
  linked : ∀ m, A.Reaches n m → (A m).nlink = 0 → ∃ ip, (ip, m) ∈ H.refs

/-- All entries of the inode table are in use, except perhaps one. -/
def State.Crowded (s : State) : Prop := ∃ ip, ∀ jp, jp ≠ ip → 0 < (s.itable jp).ref

/-- Only `iget` can stop a walk, when the inode table is full. -/
lemma Files.WellLinked.walkable {L : Layout} {H : Handles} {A : Files} {s : State} {n : ℕ}
    (hA : A.WellLinked H n) (h : Sound L H A s) :
    Walkable (fun e => e = .panic .igetNoInodes ∧ s.Crowded) H A n where
  linked m hm _ := hA.linked m hm
  free m hm htype := absurd htype (hA.allocated m hm)
  whole m hm htype hsize := absurd (hA.whole m hm htype) hsize
  table ip hfull := by
    refine ⟨rfl, ip, fun jp hjp => ?_⟩
    rw [h.refs]
    exact hfull jp hjp

/-- For every path and every well-formed file system in which nobody holds a lock: the elements of
the path are the parts between the slashes. `namei` returns the inode to which they lead from the
root or from the working directory, and fails if they do not lead anywhere. `nameiparent` returns
the directory to which all but the last of them lead, together with the last, and fails if there is
no last or if it is no directory; looking the name up in this directory gives what `namei` gives.
The files stay as they are. Each can stop only when the inode table is full. -/
theorem namex_follows_path {L : Layout} {H : Handles} {A : Files} {s : State} {cwd : Iref} {c : ℕ}
    (h : Sound L H A s) (hroot : ROOTINO < L.ninodes) (hcwd : (cwd, c) ∈ H.refs)
    (hheld : H.held = ∅) (path : CStr) (hA : A.WellLinked H (startOf c path)) :
    elements path = segments path ∧
    (match (namei L.toSuperblock cwd path).run s with
      | .ok (none, s') => A.walk (startOf c path) (segments path) = none ∧ Sound L H A s'
      | .ok (some ip, s') =>
        A.walk (startOf c path) (segments path) = some (s'.itable ip).inum ∧
          Sound L (H.get ip (s'.itable ip).inum) A s'
      | .error e => e = .panic .igetNoInodes ∧ s.Crowded) ∧
    (match (nameiparent L.toSuperblock cwd path).run s with
      | .ok (none, s') => A.walkParent (startOf c path) (segments path) = none ∧ Sound L H A s'
      | .ok (some (dp, name), s') =>
        A.walkParent (startOf c path) (segments path) = some ((s'.itable dp).inum, name) ∧
          Sound L (H.get dp (s'.itable dp).inum) A s'
      | .error e => e = .panic .igetNoInodes ∧ s.Crowded) ∧
    ∀ dp name s₁, (nameiparent L.toSuperblock cwd path).run s = .ok (some (dp, name), s₁) →
      match (do ilock L.toSuperblock dp; dirlookup L.toSuperblock dp name : FsM _).run s₁ with
      | .ok (r, s₂) => A.walk (startOf c path) (segments path)
          = r.map fun x => (s₂.itable x.1).inum
      | .error e => e = .panic .igetNoInodes ∧ s.Crowded := by
  have hwalk := hA.walkable h
  have hout : ∀ jp, jp ∉ H.held := by simp [hheld]
  have hparent : wp (fun e => e = .panic .igetNoInodes ∧ s.Crowded)
      (nameiparent L.toSuperblock cwd path) (fun r s' => r.elim
        (A.walkParent (startOf c path) (segments path) = none ∧ Sound L H A s') fun x =>
          A.walkParent (startOf c path) (segments path) = some ((s'.itable x.1).inum, x.2) ∧
            Sound L (H.get x.1 (s'.itable x.1).inum) A s') s := by
    apply h.wp_nameiparent hroot hcwd hout hwalk
    · exact fun s' hnone h' => And.intro hnone h'
    · intro dp d name s' hsome h'
      rw [← h'.inum Handles.mem_get_self] at hsome h'
      exact And.intro hsome h'
  refine ⟨elements_eq_segments path, ?_, ?_, ?_⟩
  · have hwp : wp (fun e => e = .panic .igetNoInodes ∧ s.Crowded) (namei L.toSuperblock cwd path)
        (fun r s' => r.elim
          (A.walk (startOf c path) (segments path) = none ∧ Sound L H A s') fun ip =>
            A.walk (startOf c path) (segments path) = some (s'.itable ip).inum ∧
              Sound L (H.get ip (s'.itable ip).inum) A s') s := by
      apply h.wp_namei hroot hcwd hout hwalk
      · exact fun s' hnone h' => And.intro hnone h'
      · intro ip m s' hsome h'
        rw [← h'.inum Handles.mem_get_self] at hsome h'
        exact And.intro hsome h'
    split
    · next hrun => exact hwp.returns hrun
    · next hrun => exact hwp.returns hrun
    · next hrun => exact hwp.fails hrun
  · split
    · next hrun => exact hparent.returns hrun
    · next hrun => exact hparent.returns hrun
    · next hrun => exact hparent.fails hrun
  · intro dp name s₁ hrun
    obtain ⟨hsome, h₁⟩ := hparent.returns hrun
    generalize (s₁.itable dp).inum = d at hsome h₁
    obtain ⟨hreach, htype, hlookup⟩ := Files.of_walkParent hsome
    rw [hlookup]
    have hr : (dp, d) ∈ (H.get dp d).refs := Handles.mem_get_self
    have hwp : wp (fun e => e = .panic .igetNoInodes ∧ s.Crowded)
        (do ilock L.toSuperblock dp; dirlookup L.toSuperblock dp name : FsM _)
        (fun r s₂ => (A d).slots.lookup (name.clip DIRSIZ)
          = r.map fun x => (s₂.itable x.1).inum) s₁ := by
      rw [wp_bind]
      apply h₁.wp_ilock hr
      · intro hmem
        rw [Handles.get_held, hheld] at hmem
        exact absurd hmem (Finset.notMem_empty dp)
      · exact fun hzero => absurd hzero (hA.allocated d hreach)
      intro s₂ _ h₂
      apply h₂.wp_dirlookup (H := (H.get dp d).lock dp) hr Handles.mem_lock_self
      · exact fun hne => absurd htype hne
      · exact hwalk.full dp d
      · exact fun hne => absurd (hA.whole d hreach htype) hne
      · exact fun _ hno => File.lookup_eq_none_of_matches hno
      · intro ip k s₃ _ hfinds h₃ _
        rw [hfinds.lookup, Option.map_some, h₃.inum Handles.mem_get_self]
    split
    · next hrun' => exact hwp.returns hrun'
    · next hrun' => exact hwp.fails hrun'

/-! ### A root directory -/

/-- A new root directory in which "." stands for itself. -/
def makeRoot : FsM PUnit := do
  let ip ← ialloc Layout.mkfs.toSuperblock T_DIR
  ilock Layout.mkfs.toSuperblock ip
  let _ ← dirlink Layout.mkfs.toSuperblock ip dot ROOTINO
  iunlock ip

/-- Only the root directory is on disk, and one reference to it is out. -/
def dotOnly : State :=
  match makeRoot.run .blank with
  | .ok (_, s) => s
  | .error _ => .blank

lemma dotOnly_sound : ∃ A : Files, Sound Layout.mkfs (Handles.get ⟨0, ∅⟩ 0 1) A dotOnly ∧
    A 1 = (File.new T_DIR).setDirent 0 ⟨1, strncpy DIRSIZ dot⟩ := by
  have hwp : wp (fun _ => True) makeRoot (fun _ s => ∃ ip n, ∃ A : Files,
      Sound Layout.mkfs (Handles.get ⟨0, ∅⟩ ip n) A s ∧
        A n = (File.new T_DIR).setDirent 0 ⟨1, strncpy DIRSIZ dot⟩) .blank := by
    rw [makeRoot, wp_bind]
    apply blank_image.sound.wp_ialloc ⟨trivial, trivial⟩ trivial trivial
    intro n ip s₁ _ _ h₁
    have hr : (ip, n) ∈ (Handles.get ⟨0, ∅⟩ ip n).refs := Handles.mem_get_self
    have hip : ip ∉ (Handles.get ⟨0, ∅⟩ ip n).held := Finset.notMem_empty ip
    have hlocked : ip ∈ ((Handles.get ⟨0, ∅⟩ ip n).lock ip).held :=
      Handles.mem_lock_self
    rw [wp_bind]
    apply h₁.wp_ilock hr (fun _ => trivial) (fun _ => trivial)
    intro s₂ _ h₂
    rw [wp_bind]
    apply h₂.wp_dirlink (H := (Handles.get ⟨0, ∅⟩ ip n).lock ip) hr hlocked ⟨trivial, trivial⟩
      (by decide) (fun _ => trivial) (fun _ => trivial) (fun _ => trivial) (fun _ => trivial)
      (fun _ => trivial)
    · intro j s₃ _ hfinds _
      rw [Function.update_self] at hfinds
      exact absurd hfinds.1.1 (Nat.not_lt_zero _)
    · intro k s₃ _ _ hvacant _ h₃
      rw [Function.update_self] at hvacant
      obtain rfl : k = 0 := by
        have hk : 16 * k < 0 + 16 := hvacant.1
        omega
      apply h₃.wp_iunlock (H := (Handles.get ⟨0, ∅⟩ ip n).lock ip) hr hlocked
      intro s₄ h₄
      rw [Handles.unlock_lock hip] at h₄
      refine ⟨ip, n, _, h₄, ?_⟩
      rw [Function.update_self, Function.update_self]
      rfl
  obtain ⟨hrun, href, hinum⟩ : (makeRoot.run .blank).isOk = true ∧ (dotOnly.itable 0).ref = 1 ∧
      (dotOnly.itable 0).inum = 1 := by decide +kernel
  have hdot : ∃ ip n, ∃ A : Files, Sound Layout.mkfs (Handles.get ⟨0, ∅⟩ ip n) A dotOnly ∧
      A n = (File.new T_DIR).setDirent 0 ⟨1, strncpy DIRSIZ dot⟩ := by
    rw [dotOnly]
    split
    · next a s heq => exact hwp.returns heq
    · next e heq =>
      rw [heq] at hrun
      cases hrun
  obtain ⟨ip, n, A, h, hfile⟩ := hdot
  obtain rfl : 0 = ip := by
    by_contra hne
    rw [h.refs, Handles.count_get_of_ne hne] at href
    cases href
  obtain rfl : 1 = n := by
    rw [← hinum]
    exact h.inum Handles.mem_get_self
  exact ⟨A, h, hfile⟩

/-- Everything that can be reached is the root directory itself. -/
lemma walk_dotOnly {A : Files}
    (hfile : A 1 = (File.new T_DIR).setDirent 0 ⟨1, strncpy DIRSIZ dot⟩) {names : List CStr} {m : ℕ}
    (h : A.walk 1 names = some m) : m = 1 := by
  induction names with
  | nil => exact (Option.some.inj h).symm
  | cons name names ih =>
    have hno : ∀ j, ¬(File.new T_DIR).Matches dot j := fun j hj => absurd hj.1 (Nat.not_lt_zero _)
    have hvacant : (File.new T_DIR).Vacant 0 :=
      ⟨by decide, fun j hj => absurd hj (Nat.not_lt_zero j), fun hlt => absurd hlt (by decide)⟩
    have hlt : 1 < 2 ^ 16 := by decide
    have hlookup :=
      (File.lookup_setDirent (File.slots_unique_of_size rfl) rfl hno hvacant hlt).2 name
    rw [← hfile] at hlookup
    rw [Files.walk] at h
    split at h
    · rw [hlookup] at h
      split at h
      · exact ih h
      · cases h
    · cases h

lemma dotOnly_wellLinked {A : Files}
    (hfile : A 1 = (File.new T_DIR).setDirent 0 ⟨1, strncpy DIRSIZ dot⟩) :
    A.WellLinked (Handles.get ⟨0, ∅⟩ 0 1) 1 where
  allocated m hm := by
    obtain ⟨names, hnames⟩ := hm
    rw [walk_dotOnly hfile hnames, hfile]
    decide
  whole m hm _ := by
    obtain ⟨names, hnames⟩ := hm
    rw [walk_dotOnly hfile hnames, hfile]
    rfl
  linked m hm _ := by
    obtain ⟨names, hnames⟩ := hm
    rw [walk_dotOnly hfile hnames]
    exact ⟨0, Handles.mem_get_self⟩

/-- The path "/.//./" leads to the root directory. -/
theorem namex_follows_dots : ∃ A : Files, Sound Layout.mkfs (Handles.get ⟨0, ∅⟩ 0 1) A dotOnly ∧
    A.WellLinked (Handles.get ⟨0, ∅⟩ 0 1) ROOTINO ∧
    elements [47, 46, 47, 47, 46, 47] = [dot, dot] ∧
    match (namei Layout.mkfs.toSuperblock 0 [47, 46, 47, 47, 46, 47]).run dotOnly with
    | .ok (none, _) => A.walk ROOTINO [dot, dot] = none
    | .ok (some ip, s') => A.walk ROOTINO [dot, dot] = some (s'.itable ip).inum
    | .error e => e = .panic .igetNoInodes ∧ dotOnly.Crowded := by
  obtain ⟨A, h, hfile⟩ := dotOnly_sound
  have hA := dotOnly_wellLinked hfile
  have hresult := namex_follows_path h (by decide) Handles.mem_get_self rfl
    [47, 46, 47, 47, 46, 47] hA
  refine ⟨A, h, hA, hresult.1.trans (by decide), ?_⟩
  replace hresult := hresult.2.1
  split at hresult
  · exact hresult.1
  · exact hresult.1
  · exact hresult

end Xv6.Fs
