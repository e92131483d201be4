import Xv6.Sysfile.Names

/-!
# Opening a file that cannot be opened

`open` looks for a free file and a free descriptor only after it has created a file that was not
there. If there are none it fails, and the new file stays.
-/

namespace Xv6.Sysfile

open Core Coroutine Fs Ftable

/-- There is no free file, or the process has no free descriptor. -/
def NoRoom (s : State) (p : Fin NPROC) : Prop :=
  (∀ f, (s.file f).ref ≠ 0) ∨ ∀ fd, (s.proc p).ofile fd ≠ none

section Rules

variable {F : Fs.Halt → Prop} {s : State} {p : Fin NPROC} {f : Fin NFILE} {L : Layout}

lemma wp_filealloc_of {Q : Option (Fin NFILE) → State → Prop}
    (hnone : (∀ f, (s.file f).ref ≠ 0) → Q none s)
    (hsome : ∀ f, (s.file f).ref = 0 →
      Q (some f) (s.setTables (s.setFile f { s.file f with ref := 1 }))) :
    wp (Halt.Lift F) filealloc Q s := by
  simp only [filealloc, wp_bind, wp_get]
  split
  · next f hfind => exact hsome f (by simpa using List.find?_some hfind)
  · next hfind =>
    apply hnone
    intro f
    simpa using List.find?_eq_none.mp hfind f (List.mem_finRange f)

lemma wp_fdalloc_of {Q : Option (Fin NOFILE) → State → Prop}
    (hnone : (∀ fd, (s.proc p).ofile fd ≠ none) → Q none s)
    (hsome : ∀ fd t, Q (some fd) (s.setTables t)) : wp (Halt.Lift F) (fdalloc p f) Q s := by
  simp only [fdalloc, wp_bind, wp_get]
  split
  · exact hsome _ _
  · next hfind =>
    apply hnone
    intro fd
    simpa using List.find?_eq_none.mp hfind fd (List.mem_finRange fd)

lemma wp_fileclose_of {Q : PUnit → State → Prop} (htype : (s.file f).type = .none)
    (hone : (s.file f).ref = 1)
    (hQ : Q ⟨⟩ (s.setTables (s.setFile f { s.file f with ref := 0, type := .none }))) :
    wp (Halt.Lift F) (fileclose L.toSuperblock f) Q s := by
  simp only [fileclose, wp_bind, wp_get]
  rw [if_neg (by omega), if_neg (by omega), wp_bind, wp_setFile, closeType,
    if_neg (by simp [htype])]
  exact hQ

/-- A file that was taken is given back. -/
lemma setFile_setFile {t : Tables} (hfree : (t.file f).ref = 0) (htype : (t.file f).type = .none) :
    (t.setFile f { t.file f with ref := 1 }).setFile f
      { (t.setFile f { t.file f with ref := 1 }).file f with ref := 0, type := .none } = t := by
  rw [setFile_file_self]
  simp only [Tables.setFile, Function.update_idem]
  rw [← hfree, ← htype, Function.update_eq_self]

end Rules

section Open

variable {F : Fs.Halt → Prop} [Lenient F] {L : Layout} {s : State}
  {k : Slot → Option (Iref × ℕ)} {A : Files} {p : Fin NPROC} {ip : Iref} {m omode : ℕ}
  {Q : ℤ → State → Prop}

/-- The reference to the locked inode is dropped if there is no room. -/
lemma wp_openFile_of (hlink : Linked k s.toTables)
    (h : Sound L (((handles k).get ip m).lock ip) A s.fs)
    (hfail : ∀ A' s', NoRoom s p → Dropped (handles k) m A A' → s'.toTables = s.toTables →
      Sound L (handles k) A' s'.fs → Q (-1) s')
    (hQ : ∀ (fd : Fin NOFILE) s', Q fd s') :
    wp (Halt.Lift F) (openFile L.toSuperblock p ip omode) Q s := by
  have hdrop : ∀ t : Tables, t = s.toTables → NoRoom s p →
      wp (Halt.Lift F) (do
        onFs (iunlockput L.toSuperblock ip)
        onFs endOp
        return (-1 : ℤ)) Q (s.setTables t) := by
    rintro t rfl hroom
    rw [wp_bind, wp_onFs_lift]
    apply h.wp_iunlockput exhaustible (Finset.notMem_empty ip)
    intro fs₁ A' hdrop h₁
    rw [wp_bind, wp_onFs_lift]
    apply wp_endOp h₁
    exact fun fs₂ h₂ => hfail A' _ hroom hdrop rfl h₂
  simp only [openFile, wp_bind, wp_get]
  apply wp_filealloc_of
  · exact fun hfull => hdrop _ rfl (.inl hfull)
  intro f hfree
  have htype := hlink.free f hfree
  rw [wp_bind]
  apply wp_fdalloc_of
  · intro hfull
    rw [wp_bind]
    apply wp_fileclose_of
    · rw [State.setTables, setFile_file_self]
      exact htype
    · rw [State.setTables, setFile_file_self]
    exact hdrop _ (setFile_setFile hfree htype) (.inr hfull)
  intro fd t
  have hr : (ip, m) ∈ ((handles k).get ip m).refs := Handles.mem_get_self
  have hip : ip ∈ (((handles k).get ip m).lock ip).held := Handles.mem_lock_self
  have hunlock : ∀ A₁ (s₁ : State), Sound L (((handles k).get ip m).lock ip) A₁ s₁.fs →
      wp (Halt.Lift F) (do
        onFs (iunlock ip)
        onFs endOp
        return (fd : ℤ)) Q s₁ := by
    intro A₁ s₁ h₁
    rw [wp_bind, wp_onFs_lift]
    apply h₁.wp_iunlock (H := ((handles k).get ip m).lock ip) hr hip
    intro fs₂ h₂
    rw [wp_bind, wp_onFs_lift]
    exact wp_endOp h₂ fun fs₃ _ => hQ fd _
  rw [wp_bind, wp_setFile]
  apply wp_ite
  · intro _
    rw [wp_bind, wp_onFs_lift]
    apply h.wp_itrunc (H := ((handles k).get ip m).lock ip) hr hip exhaustible
    exact fun fs₁ h₁ => hunlock _ _ h₁
  · exact fun _ => hunlock A _ h

variable (hroot : ROOTINO < L.ninodes) (hlink : Linked k s.toTables)
  (h : Sound L (handles k) A s.fs) (hA : Anchored k A p)

include hroot hlink h hA

lemma wp_sysOpen_of {path : Option CStr}
    (hfull : ∀ d, (A d).type = T_DIR → (A d).Full → F (.panic .dirlink))
    (hsame : ∀ s', (∀ n cwd c, path = some n → k (.inr p) = some (cwd, c) →
      omode &&& O_CREATE ≠ 0 → A.NewName c n → ¬NoRoom s p) → Unchanged L k A s s' → Q (-1) s')
    (hnew : ∀ n cwd c m A' s', path = some n → k (.inr p) = some (cwd, c) →
      omode &&& O_CREATE ≠ 0 → A.NewName c n → NoRoom s p → m < L.ninodes → (A m).type = 0 →
      (A' m).type = T_FILE → Unchanged L k A' s s' → Q (-1) s')
    (hQ : ∀ (fd : Fin NOFILE) s', Q fd s') :
    wp (Halt.Lift F) (sysOpen L.toSuperblock p path omode) Q s := by
  cases path with
  | none => exact hsame s (fun n cwd c hn => nomatch hn) ⟨rfl, h⟩
  | some path =>
  rw [sysOpen, wp_bind, wp_onFs_lift]
  apply wp_beginOp h
  intro fs₁ h₁
  rw [wp_bind]
  apply wp_getCwd_of
  intro cwd hcwd
  obtain ⟨c, hc⟩ := hlink.mem (x := .inr p) hcwd
  have hAc := hA.startOf hc path
  -- nothing was created
  have hsame' : ∀ s', ¬(omode &&& O_CREATE ≠ 0 ∧ A.NewName c path) → Unchanged L k A s s' →
      Q (-1) s' := by
    intro s' hold hs'
    refine hsame s' (fun n cwd' c' hn hc' hcreate hname => absurd ⟨hcreate, ?_⟩ hold) hs'
    cases hn
    cases hc.symm.trans hc'
    exact hname
  rw [wp_bind, wp_onFs_lift]
  apply h₁.wp_openInode hroot (mem_handles hc) Finset.notMem_empty hAc hfull
  · intro fs₂ hold h₂
    rw [wp_bind, wp_onFs_lift]
    exact wp_endOp h₂ fun fs₃ h₃ => hsame' _ hold ⟨rfl, h₃⟩
  · intro ip m fs₂ hold hreach h₂
    have hr : (ip, m) ∈ ((handles k).get ip m).refs := Handles.mem_get_self
    have hip : ip ∈ (((handles k).get ip m).lock ip).held := Handles.mem_lock_self
    have hkept := hAc m hreach (h₂.type_ne (H := ((handles k).get ip m).lock ip) hr hip)
    simp only [wp_bind, wp_get]
    apply wp_ite
    · intro _
      rw [wp_bind, wp_onFs_lift]
      apply h₂.wp_iunlockput exhaustible (Finset.notMem_empty ip)
      intro fs₃ A' hdrop h₃
      rw [hdrop.eq hkept] at h₃
      rw [wp_bind, wp_onFs_lift]
      exact wp_endOp h₃ fun fs₄ h₄ => hsame' _ hold ⟨rfl, h₄⟩
    · intro _
      apply wp_openFile_of (s := .setFs fs₂ (.setFs fs₁ s)) hlink h₂
      · intro A' s' _ hdrop htables h'
        rw [hdrop.eq hkept] at h'
        exact hsame' s' hold ⟨htables, h'⟩
      · exact hQ
  · intro ip m A₁ fs₂ hname hfree htype hnlink h₂
    have hr : (ip, m) ∈ ((handles k).get ip m).refs := Handles.mem_get_self
    have hip : ip ∈ (((handles k).get ip m).lock ip).held := Handles.mem_lock_self
    have hone : (A₁ m).nlink = 0 → ∃ jp, (jp, m) ∈ (handles k).refs := by
      intro hzero
      rw [hnlink] at hzero
      cases hzero
    simp only [wp_bind, wp_get]
    apply wp_ite
    · -- the new file is no device
      rintro ⟨hdevice, -⟩
      have htype' : (fs₂.itable ip).type = T_FILE := by
        rw [(h₂.fields (H := ((handles k).get ip m).lock ip) hr hip).1, htype]
      cases htype'.symm.trans hdevice
    · intro _
      apply wp_openFile_of (s := .setFs fs₂ (.setFs fs₁ s)) hlink h₂
      · intro A' s' hroom hdrop htables h'
        rw [hdrop.eq hone] at h'
        exact hnew path cwd c m A₁ s' rfl hc hname.1 hname.2 hroom (h₂.inum_lt hr) hfree htype
          ⟨htables, h'⟩
      · exact hQ

end Open

/-- For every state between calls in which the inodes that paths can reach have a link or a
reference, every process, path and mode: if `open` returns -1, the tables are as before, and so are
the files unless a new file was to be created and there is no room for it in the tables. -/
theorem failed_open_iff {L : Layout} {s : State} {k : Slot → Option (Iref × ℕ)} {A : Files}
    {p : Fin NPROC} (hroot : ROOTINO < L.ninodes) (hlink : Linked k s.toTables)
    (h : Sound L (handles k) A s.fs) (hA : Anchored k A p) (path : Option CStr) (omode : ℕ)
    (s' : State) (hrun : (sysOpen L.toSuperblock p path omode).run s = .ok (-1, s')) :
    s'.toTables = s.toTables ∧ (Unchanged L k A s s' ↔
      ∀ n cwd c, path = some n → k (.inr p) = some (cwd, c) → omode &&& O_CREATE ≠ 0 →
        A.NewName c n → ¬NoRoom s p) := by
  have hwp : wp (Halt.Lift Fs.Halt.Benign) (sysOpen L.toSuperblock p path omode) (fun r s' =>
      r = -1 → s'.toTables = s.toTables ∧ (Unchanged L k A s s' ↔
        ∀ n cwd c, path = some n → k (.inr p) = some (cwd, c) → omode &&& O_CREATE ≠ 0 →
          A.NewName c n → ¬NoRoom s p)) s := by
    apply wp_sysOpen_of hroot hlink h hA
    · exact fun _ _ _ => by decide
    · exact fun s' hroom hsame _ => ⟨hsame.1, iff_of_true hsame hroom⟩
    · intro n cwd c m A' s' hn hc hcreate hname hroom hm hfree htype hmade _
      refine ⟨hmade.1, iff_of_false ?_ ?_⟩
      · rintro ⟨-, h'⟩
        have heq := (h'.type_eq hm).trans (hmade.2.type_eq hm).symm
        rw [hfree, htype] at heq
        cases heq
      · exact fun hall => hall n cwd c hn hc hcreate hname hroom
    · intro fd s' hr
      omega
  exact hwp.returns hrun rfl

/-- The first process has created the file "a" and made copies of the descriptor until there are no
more. -/
def crowded : State :=
  ((machine Layout.mkfs).exec rootOnly (.userinit ::
    .call 0 (.open (some [97]) (O_CREATE ||| O_RDWR)) ::
    List.replicate 15 (.call 0 (.dup 0)))).getD rootOnly

lemma crowded_reachable : (machine Layout.mkfs).Reachable crowded :=
  .getD_exec booted_rootOnly (by decide +kernel)

/-- There is no file "b" to open. -/
theorem failed_open_crowded : ∃ k A, Linked k crowded.toTables ∧
    Sound Layout.mkfs (handles k) A crowded.fs ∧ Anchored k A 0 ∧
    ((sysOpen Layout.mkfs.toSuperblock 0 (some [98]) O_RDONLY).run crowded).toOption.map Prod.fst
      = some (-1) ∧
    ∀ s', (sysOpen Layout.mkfs.toSuperblock 0 (some [98]) O_RDONLY).run crowded = .ok (-1, s') →
      Unchanged Layout.mkfs k A crowded s' := by
  obtain ⟨hroot, k, hlink, A, h, -⟩ := Inv.of_reachable crowded_reachable
  have hkept : Kept Layout.mkfs crowded.fs := by decide +kernel
  have hA := hkept.anchored hroot h 0
  refine ⟨k, A, hlink, h, hA, by decide +kernel, fun s' hrun => ?_⟩
  apply (failed_open_iff hroot hlink h hA (some [98]) O_RDONLY s' hrun).2.mpr
  exact fun _ _ _ _ _ hcreate => absurd rfl hcreate

/-- The file "b" is to be created. The call fails, but the inode 3 has become a file, and the root
directory has one entry more. -/
theorem failed_open_creates : (machine Layout.mkfs).Reachable crowded ∧
    Kept Layout.mkfs crowded.fs ∧
    ((do
      let fs ← State.fs <$> get
      let r ← sysOpen Layout.mkfs.toSuperblock 0 (some [98]) (O_CREATE ||| O_RDWR)
      let fs' ← State.fs <$> get
      return ((fs.dinode Layout.mkfs.toSuperblock 3).type,
        (fs.dinode Layout.mkfs.toSuperblock ROOTINO).size, r,
        (fs'.dinode Layout.mkfs.toSuperblock 3).type,
        (fs'.dinode Layout.mkfs.toSuperblock ROOTINO).size) : SysM _).run crowded).toOption.map
          Prod.fst = some (0, 16, -1, T_FILE, 32) := by
  refine ⟨crowded_reachable, ?_, ?_⟩
  · decide +kernel
  · decide +kernel

end Xv6.Sysfile
