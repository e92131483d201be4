import Xv6.Fs.Effects
import Xv6.Sysfile.References

/-!
# System calls that fail

What the system calls on names do to the files and to the tables. `link`, `unlink`, `mkdir`, `mknod`
and `chdir` fail without a trace; `open` may leave a file behind that it has created.
-/

namespace Xv6.Sysfile

open Core Coroutine Fs Ftable

/-- A call may fail in the ways that `F` allows for functions of the file system. -/
def Halt.Lift (F : Fs.Halt → Prop) : Halt → Prop
  | .fs e => F e
  | _ => True

section Rules

variable {F : Fs.Halt → Prop} {s : State} {p : Fin NPROC}

lemma wp_onFs_lift {α : Type} {c : FsM α} {Q : α → State → Prop} :
    wp (Halt.Lift F) (onFs c) Q s ↔ wp F c (fun a fs => Q a (.setFs fs s)) s.fs :=
  wp_zoom (fun _ => rfl) (fun _ _ => rfl) fun _ _ _ => rfl

variable [Lenient F] {L : Layout} {H : Handles} {A : Files} {fs : Fs.State}
  {Q : PUnit → Fs.State → Prop}

lemma wp_beginOp (h : Sound L H A fs) (hQ : ∀ fs', Sound L H A fs' → Q ⟨⟩ fs') :
    wp F beginOp Q fs := by
  simp only [beginOp, wp_bind, wp_pause, wp_get]
  apply wp_ite
  · exact fun _ => allowed (F := F) (by decide)
  · exact fun _ => hQ _ (h.setLog _ _)

omit [Lenient F] in
lemma wp_endOp (h : Sound L H A fs)
    (hQ : ∀ fs', Sound L H A fs' → Q ⟨⟩ fs') : wp F endOp Q fs := hQ _ (h.setLog _ _)

omit [Lenient F] in
lemma wp_getCwd_of {Q : Iref → State → Prop} (hQ : ∀ ip, (s.proc p).cwd = some ip → Q ip s) :
    wp (Halt.Lift F) (getCwd p) Q s := by
  simp only [getCwd, wp_bind, wp_get]
  split
  · next ip hcwd => exact hQ ip hcwd
  · exact trivial

variable {k : Slot → Option (Iref × ℕ)} (hlink : Linked k s.toTables)

include hlink

/-- A transaction that takes the files from `A` to files with `R`. -/
lemma wp_transaction_of {α : Type} {c : Iref → FsM α} {Q : α → State → Prop}
    {R : α → Files → Prop} (h : Sound L (handles k) A s.fs)
    (hc : ∀ cwd n fs, k (.inr p) = some (cwd, n) → Sound L (handles k) A fs →
      wp F (c cwd) (fun a fs' => ∃ A', Sound L (handles k) A' fs' ∧ R a A') fs)
    (hQ : ∀ a A' s', s'.toTables = s.toTables → R a A' → Sound L (handles k) A' s'.fs → Q a s') :
    wp (Halt.Lift F) (transaction p c) Q s := by
  rw [transaction, wp_bind, wp_onFs_lift]
  apply wp_beginOp h
  intro fs₁ h₁
  rw [wp_bind]
  apply wp_getCwd_of
  intro cwd hcwd
  obtain ⟨n, hd⟩ := hlink.mem (x := .inr p) hcwd
  rw [wp_bind, wp_onFs_lift]
  apply (hc cwd n fs₁ hd h₁).mono
  rintro a fs₂ ⟨A', h₂, hR⟩
  rw [wp_bind, wp_onFs_lift]
  apply wp_endOp h₂
  exact fun fs₃ h₃ => hQ a A' _ rfl hR h₃

omit hlink in
lemma wp_noPath_of {Q : ℤ → State → Prop} (h : Sound L H A s.fs)
    (hQ : ∀ s', s'.toTables = s.toTables → Sound L H A s'.fs → Q (-1) s') :
    wp (Halt.Lift F) noPath Q s := by
  rw [noPath, wp_bind, wp_onFs_lift]
  apply wp_beginOp h
  intro fs₁ h₁
  rw [wp_bind, wp_onFs_lift]
  apply wp_endOp h₁
  exact fun fs₂ h₂ => hQ _ rfl h₂

end Rules

/-! ### Calls that fail without a trace -/

/-- Every inode that can be reached from the root, or from the working directory of `p`, has a link
or a reference. -/
structure Anchored (k : Slot → Option (Iref × ℕ)) (A : Files) (p : Fin NPROC) : Prop where
  root : A.Anchored (handles k) ROOTINO
  cwd : ∀ {ip c}, k (.inr p) = some (ip, c) → A.Anchored (handles k) c

variable {k : Slot → Option (Iref × ℕ)}

lemma Anchored.startOf {A : Files} {p : Fin NPROC} {ip : Iref} {c : ℕ} (h : Anchored k A p)
    (hc : k (.inr p) = some (ip, c)) (path : CStr) : A.Anchored (handles k) (startOf c path) := by
  rw [Fs.startOf]
  split
  · exact h.root
  · exact h.cwd hc

/-- Neither the tables nor the files have changed. -/
def Unchanged (L : Layout) (k : Slot → Option (Iref × ℕ)) (A : Files) (s s' : State) : Prop :=
  s'.toTables = s.toTables ∧ Sound L (handles k) A s'.fs

/-- The tables have not changed, and the files have become `A`, except that files without links and
references may have been freed. -/
def Became (L : Layout) (k : Slot → Option (Iref × ℕ)) (A : Files) (s s' : State) : Prop :=
  s'.toTables = s.toTables ∧ ∃ A', Reaped (handles k) A A' ∧ Sound L (handles k) A' s'.fs

section Calls

variable {L : Layout} {s : State} {A : Files} {p : Fin NPROC}
  (hroot : ROOTINO < L.ninodes) (hlink : Linked k s.toTables) (h : Sound L (handles k) A s.fs)
  (hA : Anchored k A p)

include hroot hlink h hA

lemma wp_sysLink_of {old new : Option CStr} :
    wp (Halt.Lift Fs.Halt.Benign) (sysLink L.toSuperblock p old new) (fun r s' =>
      r = -1 ∧ Unchanged L k A s s' ∨ r = 0 ∧ ∃ o n ip c m d j name, old = some o ∧ new = some n ∧
        k (.inr p) = some (ip, c) ∧ A.walk (startOf c o) (segments o) = some m ∧
        A.walkParent (startOf c n) (segments n) = some (d, name) ∧ (∀ i, ¬(A d).Matches name i) ∧
        (A d).Vacant j ∧ Became L k (A.addLink m d j name) s s') s := by
  cases old with
  | none => exact .inl ⟨rfl, rfl, h⟩
  | some o =>
  cases new with
  | none => exact .inl ⟨rfl, rfl, h⟩
  | some n =>
  apply wp_transaction_of hlink h (R := fun r A' => (r = -1 ∧ A' = A) ∨ r = 0 ∧
    ∃ ip c m d j name, k (.inr p) = some (ip, c) ∧ A.walk (startOf c o) (segments o) = some m ∧
      A.walkParent (startOf c n) (segments n) = some (d, name) ∧ (∀ i, ¬(A d).Matches name i) ∧
      (A d).Vacant j ∧ Reaped (handles k) (A.addLink m d j name) A')
  · intro cwd c fs hc hfs
    apply hfs.wp_sysLink hroot (mem_handles hc) Finset.notMem_empty (hA.startOf hc)
    · exact fun _ _ _ => by decide
    · exact fun fs' h' => ⟨A, h', .inl ⟨rfl, rfl⟩⟩
    · intro m d j name A' fs' hold hnew _ hno hvacant hdrop h'
      exact ⟨A', h', .inr ⟨rfl, cwd, c, m, d, j, name, hc, hold, hnew, hno, hvacant, hdrop.reaped⟩⟩
  · rintro r A' s' htables (⟨rfl, rfl⟩ | ⟨rfl, ip, c, m, d, j, name, hc, hm, hd, hno, hj, hreap⟩) h'
    · exact .inl ⟨rfl, htables, h'⟩
    · exact .inr ⟨rfl, o, n, ip, c, m, d, j, name, rfl, rfl, hc, hm, hd, hno, hj, htables, A',
        hreap, h'⟩

lemma wp_sysUnlink_of {path : Option CStr} :
    wp (Halt.Lift Fs.Halt.Benign) (sysUnlink L.toSuperblock p path) (fun r s' =>
      r = -1 ∧ Unchanged L k A s s' ∨ r = 0 ∧ ∃ n ip c d j name, path = some n ∧
        k (.inr p) = some (ip, c) ∧ A.walkParent (startOf c n) (segments n) = some (d, name) ∧
        (A d).Finds name j ∧
        Became L k (A.removeLink ((A d).dirent (16 * j)).inum d j) s s') s := by
  cases path with
  | none => exact .inl ⟨rfl, rfl, h⟩
  | some n =>
  apply wp_transaction_of hlink h (R := fun r A' => (r = -1 ∧ A' = A) ∨ r = 0 ∧
    ∃ ip c d j name, k (.inr p) = some (ip, c) ∧
      A.walkParent (startOf c n) (segments n) = some (d, name) ∧ (A d).Finds name j ∧
      Reaped (handles k) (A.removeLink ((A d).dirent (16 * j)).inum d j) A')
  · intro cwd c fs hc hfs
    apply hfs.wp_sysUnlink hroot (mem_handles hc) Finset.notMem_empty (hA.startOf hc)
    · exact fun fs' h' => ⟨A, h', .inl ⟨rfl, rfl⟩⟩
    · rintro m d j name A' fs' hpath hfinds rfl hreap h'
      exact ⟨A', h', .inr ⟨rfl, cwd, c, d, j, name, hc, hpath, hfinds, hreap⟩⟩
  · rintro r A' s' htables (⟨rfl, rfl⟩ | ⟨rfl, ip, c, d, j, name, hc, hpath, hfinds, hreap⟩) h'
    · exact .inl ⟨rfl, htables, h'⟩
    · exact .inr ⟨rfl, n, ip, c, d, j, name, rfl, hc, hpath, hfinds, htables, A', hreap, h'⟩

/-- `mkdir` and `mknod`, for a path that could be copied in. -/
lemma wp_sysMake_of {path : CStr} {type major minor : Int16} :
    wp (Halt.Lift Fs.Halt.Benign)
      (transaction p fun cwd => Fs.sysMake L.toSuperblock cwd path type major minor)
      (fun r s' => r = -1 → Unchanged L k A s s') s := by
  apply wp_transaction_of hlink h (R := fun r A' => r = -1 → A' = A)
  · intro cwd c fs hc hfs
    apply hfs.wp_sysMake hroot (mem_handles hc) Finset.notMem_empty (hA.startOf hc path)
    · exact fun _ _ _ => by decide
    · exact fun fs' h' => ⟨A, h', fun _ => rfl⟩
    · exact fun A' fs' h' => ⟨A', h', fun hr => absurd hr (by decide)⟩
  · intro r A' s' htables hR h' hr
    rw [hR hr] at h'
    exact ⟨htables, h'⟩

lemma wp_sysChdir_of {path : Option CStr} :
    wp (Halt.Lift Fs.Halt.Benign) (sysChdir L.toSuperblock p path)
      (fun r s' => r = -1 → Unchanged L k A s s') s := by
  cases path with
  | none => exact wp_noPath_of h fun s' htables h' _ => ⟨htables, h'⟩
  | some path =>
  rw [sysChdir, transaction, wp_bind, wp_bind, wp_onFs_lift]
  apply wp_beginOp h
  intro fs₁ h₁
  rw [wp_bind]
  apply wp_getCwd_of
  intro cwd hcwd
  obtain ⟨c, hc⟩ := hlink.mem (x := .inr p) hcwd
  have hAc := hA.startOf hc path
  rw [handles_clear hc] at h₁ hAc
  rw [wp_bind, wp_onFs_lift]
  apply h₁.wp_sysChdir hroot Finset.notMem_empty hAc
  · intro fs₂ h₂
    rw [wp_bind, wp_onFs_lift]
    apply wp_endOp h₂
    intro fs₃ h₃ _
    rw [← handles_clear hc] at h₃
    exact ⟨rfl, h₃⟩
  · intro ip m A' fs₂ h₂
    rw [wp_bind, wp_onFs_lift]
    apply wp_endOp h₂
    intro fs₃ _
    exact fun hr => absurd hr (by decide)

end Calls

/-- For every state between calls in which the inodes that paths can reach have a link or a
reference, and every process: if `link` or `unlink` returns, it has returned -1 and changed nothing,
or it has returned 0 and has added or removed one entry and changed the link counts for this entry,
and files without links and references may have been freed. If `mkdir`, `mknod` or `chdir` returns
-1, it has changed nothing. -/
theorem failed_calls_change_nothing {L : Layout} {s : State} {k : Slot → Option (Iref × ℕ)}
    {A : Files} {p : Fin NPROC} (hroot : ROOTINO < L.ninodes) (hlink : Linked k s.toTables)
    (h : Sound L (handles k) A s.fs) (hA : Anchored k A p) :
    (∀ old new r s', (sysLink L.toSuperblock p old new).run s = .ok (r, s') →
      r = -1 ∧ Unchanged L k A s s' ∨ r = 0 ∧ ∃ o n ip c m d j name, old = some o ∧ new = some n ∧
        k (.inr p) = some (ip, c) ∧ A.walk (startOf c o) (segments o) = some m ∧
        A.walkParent (startOf c n) (segments n) = some (d, name) ∧ (∀ i, ¬(A d).Matches name i) ∧
        (A d).Vacant j ∧ Became L k (A.addLink m d j name) s s') ∧
    (∀ path r s', (sysUnlink L.toSuperblock p path).run s = .ok (r, s') →
      r = -1 ∧ Unchanged L k A s s' ∨ r = 0 ∧ ∃ n ip c d j name, path = some n ∧
        k (.inr p) = some (ip, c) ∧ A.walkParent (startOf c n) (segments n) = some (d, name) ∧
        (A d).Finds name j ∧ Became L k (A.removeLink ((A d).dirent (16 * j)).inum d j) s s') ∧
    (∀ path s', (sysMkdir L.toSuperblock p path).run s = .ok (-1, s') → Unchanged L k A s s') ∧
    (∀ path major minor s', (sysMknod L.toSuperblock p path major minor).run s = .ok (-1, s') →
      Unchanged L k A s s') ∧
    ∀ path s', (sysChdir L.toSuperblock p path).run s = .ok (-1, s') → Unchanged L k A s s' := by
  have hnoPath : ∀ s', (noPath).run s = .ok (-1, s') → Unchanged L k A s s' := by
    intro s' hrun
    have hwp : wp (Halt.Lift Fs.Halt.Benign) noPath (fun _ s' => Unchanged L k A s s') s :=
      wp_noPath_of h fun s' htables h' => ⟨htables, h'⟩
    exact hwp.returns hrun
  refine ⟨fun old new r s' hrun => (wp_sysLink_of hroot hlink h hA).returns hrun,
    fun path r s' hrun => (wp_sysUnlink_of hroot hlink h hA).returns hrun,
    fun path s' hrun => ?_, fun path major minor s' hrun => ?_,
    fun path s' hrun => (wp_sysChdir_of hroot hlink h hA).returns hrun rfl⟩
  · cases path with
    | none => exact hnoPath s' hrun
    | some path => exact (wp_sysMake_of hroot hlink h hA).returns hrun rfl
  · cases path with
    | none => exact hnoPath s' hrun
    | some path => exact (wp_sysMake_of hroot hlink h hA).returns hrun rfl

/-! ### An example -/

/-- Every allocated inode has a link, or an entry of the inode table that is in use. -/
def Kept (L : Layout) (fs : Fs.State) : Prop :=
  ∀ n < L.ninodes, (fs.dinode L.toSuperblock n).type ≠ 0 →
    (fs.dinode L.toSuperblock n).nlink = 0 → ∃ ip, 0 < (fs.itable ip).ref ∧ (fs.itable ip).inum = n

instance (L : Layout) (fs : Fs.State) : Decidable (Kept L fs) :=
  inferInstanceAs (Decidable (∀ n < _, _ → _ → ∃ _, _))

lemma Kept.anchored {L : Layout} {fs : Fs.State} {A : Files} (hfs : Kept L fs)
    (hroot : ROOTINO < L.ninodes) (h : Sound L (handles k) A fs) (p : Fin NPROC) :
    Anchored k A p := by
  have hall : ∀ n < L.ninodes, A.Anchored (handles k) n := by
    intro n hn m hreach htype hlink
    have hm := h.lt_of_reaches hn hreach
    obtain ⟨V, hrep, -, rfl⟩ := h.volume
    have hinode : fs.dinode L.toSuperblock m = V.inode m := hrep.inode m hm (by simp)
    obtain ⟨ip, href, hinum⟩ := hfs m hm (by rw [hinode]; exact htype) (by rw [hinode]; exact hlink)
    rw [h.refs] at href
    obtain ⟨m', hm'⟩ := Handles.exists_mem_of_count_pos href
    refine ⟨ip, ?_⟩
    rwa [← h.inum hm', hinum] at hm'
  exact ⟨hall ROOTINO hroot, fun hc => hall _ (h.inum_lt (mem_handles hc))⟩

/-- There is no file "b" to remove. -/
theorem unlink_forked : ∃ k A, Linked k forked.toTables ∧
    Sound Layout.mkfs (handles k) A forked.fs ∧ Anchored k A 0 ∧
    ((sysUnlink Layout.mkfs.toSuperblock 0 (some [98])).run forked).toOption.map Prod.fst
      = some (-1) ∧
    ∀ s', (sysUnlink Layout.mkfs.toSuperblock 0 (some [98])).run forked = .ok (-1, s') →
      Unchanged Layout.mkfs k A forked s' := by
  have hreach : (machine Layout.mkfs).Reachable forked :=
    .getD_exec booted_rootOnly (by decide +kernel)
  obtain ⟨hroot, k, hlink, A, h, -⟩ := Inv.of_reachable hreach
  have hkept : Kept Layout.mkfs forked.fs := by decide +kernel
  have hA := hkept.anchored hroot h 0
  refine ⟨k, A, hlink, h, hA, by decide +kernel, fun s' hrun => ?_⟩
  rcases (failed_calls_change_nothing hroot hlink h hA).2.1 _ _ _ hrun with ⟨-, hsame⟩ | ⟨hr, -⟩
  · exact hsame
  · exact absurd hr (by decide)

end Xv6.Sysfile
