import Xv6.Core.Population
import Xv6.Fs.Ownership
import Xv6.Sysfile.Basic

/-!
# References to inodes

Between the system calls the references to the inode table are those of the open files and of the
working directories, and no inode is locked. Every call, on each of its paths, gives back what it
takes and does not keep in a file or as a working directory.
-/

namespace Xv6.Sysfile

open Core Coroutine Fs Ftable

/-- A place that can hold a reference: an entry of the file table, or a process. -/
abbrev Slot := Fin NFILE ⊕ Fin NPROC

/-- The inode that a place refers to. -/
def Tables.slot (t : Tables) : Slot → Option Iref
  | .inl f =>
    if (t.file f).type = .inode ∨ (t.file f).type = .device then some (t.file f).ip else none
  | .inr p => (t.proc p).cwd

/-- The references `c`, with their inode numbers, are those of the tables. -/
structure Linked (c : Slot → Option (Iref × ℕ)) (t : Tables) : Prop where
  slot : ∀ x, (c x).map Prod.fst = t.slot x
  free : ∀ f, (t.file f).ref = 0 → (t.file f).type = .none
  idle : ∀ p, (t.proc p).state ≠ .running → (t.proc p).cwd = none

/-- No locks are held, and these references are out. -/
def handles (c : Slot → Option (Iref × ℕ)) : Handles := ⟨contents c, ∅⟩

/-- The inodes of files that are open for writing. -/
def writable (c : Slot → Option (Iref × ℕ)) (t : Tables) : Set ℕ :=
  {n | ∃ f ip, c (.inl f) = some (ip, n) ∧ (t.file f).writable = true}

/-- Between the system calls. -/
structure Inv (L : Layout) (s : State) : Prop where
  root : ROOTINO < L.ninodes
  refs : ∃ c, Linked c s.toTables ∧
    Holding L (handles c) (NoDirs (writable c s.toTables)) s.fs

/-- The ways in which a call may fail to return. -/
def Halt.Ok : Halt → Prop
  | .fs e => e.Benign
  | _ => True

/-! ### Rules -/

variable {p : Fin NPROC} {f : Fin NFILE}

section Rules

variable {F : Halt → Prop} {s : State} {Q : PUnit → State → Prop}

lemma wp_setFile {g : File → File} :
    wp F (setFile f g) Q s ↔ Q ⟨⟩ (s.setTables (s.setFile f (g (s.file f)))) := Iff.rfl

/-- The same for a change of which only some properties matter. -/
lemma wp_setFile_of {g : File → File}
    (hQ : ∀ x y, s.file f = x → y = g x → Q ⟨⟩ (s.setTables (s.setFile f y))) :
    wp F (setFile f g) Q s :=
  hQ _ _ rfl rfl

lemma wp_setProc {g : Proc → Proc} :
    wp F (setProc p g) Q s ↔ Q ⟨⟩ (s.setTables (s.setProc p (g (s.proc p)))) := Iff.rfl

lemma wp_setFd {fd : Fin NOFILE} {x : Option (Fin NFILE)} :
    wp F (setFd p fd x) Q s ↔ Q ⟨⟩ (s.setTables (s.setProc p
      { s.proc p with ofile := Function.update (s.proc p).ofile fd x })) := Iff.rfl

lemma wp_onFs {α : Type} {c : FsM α} {Q : α → State → Prop} :
    wp Halt.Ok (onFs c) Q s ↔ wp Fs.Halt.Benign c (fun a fs => Q a (.setFs fs s)) s.fs :=
  wp_zoom (fun _ => rfl) (fun _ _ => rfl) fun _ _ _ => rfl

end Rules

/-! ### The tables -/

variable {y : File} {r : Option (Iref × ℕ)}

section Tables

variable {c : Slot → Option (Iref × ℕ)} {t t' : Tables} {ip : Iref} {n : ℕ} {x : Slot}

@[simp]
lemma setFile_file_self : (t.setFile f y).file f = y :=
  Function.update_self ..

lemma setFile_file_of_ne {g : Fin NFILE} (h : g ≠ f) : (t.setFile f y).file g = t.file g :=
  Function.update_of_ne h ..

@[simp]
lemma setProc_proc_self {y : Proc} : (t.setProc p y).proc p = y :=
  Function.update_self ..

lemma setProc_proc_of_ne {q : Fin NPROC} {y : Proc} (h : q ≠ p) :
    (t.setProc p y).proc q = t.proc q :=
  Function.update_of_ne h ..

lemma Linked.mem (h : Linked c t) (hx : t.slot x = some ip) : ∃ n, c x = some (ip, n) := by
  have hslot := h.slot x
  rw [hx] at hslot
  obtain ⟨⟨jp, n⟩, hc, rfl⟩ := Option.map_eq_some_iff.mp hslot
  exact ⟨n, hc⟩

lemma Linked.eq_none (h : Linked c t) (hx : t.slot x = none) : c x = none := by
  have hslot := h.slot x
  rw [hx] at hslot
  exact Option.map_eq_none_iff.mp hslot

lemma mem_handles (hx : c x = some (ip, n)) : (ip, n) ∈ (handles c).refs :=
  mem_contents.mpr ⟨x, hx⟩

/-- A place gets a reference, or gives it up. -/
lemma handles_eq_get {c' : Slot → Option (Iref × ℕ)} (hx : c x = some (ip, n)) (hx' : c' x = none)
    (hother : ∀ y, y ≠ x → c' y = c y) : handles c = (handles c').get ip n := by
  rw [handles, contents_eq_cons hx hx' hother]
  rfl

lemma handles_update (hx : c x = none) (ip : Iref) (n : ℕ) :
    handles (Function.update c x (some (ip, n))) = (handles c).get ip n :=
  handles_eq_get (Function.update_self ..) hx fun _ hy => (Function.update_of_ne hy ..).symm

lemma handles_clear (hx : c x = some (ip, n)) :
    handles c = (handles (Function.update c x none)).get ip n :=
  handles_eq_get hx (Function.update_self ..) fun _ hy => Function.update_of_ne hy ..

/-- Files that are open for writing stay where they are as long as they are open. -/
lemma stable_writable : Stable (handles c) (NoDirs (writable c t)) := by
  refine NoDirs.stable ?_
  rintro n ⟨f, ip, hc, -⟩
  exact ⟨ip, mem_handles hc⟩

/-- A change of the tables in which no reference is made or dropped. -/
lemma Linked.of_slot (h : Linked c t) (hslot : ∀ x, t'.slot x = t.slot x)
    (hfree : ∀ f, (t'.file f).ref = 0 → (t'.file f).type = .none)
    (hstate : ∀ p, (t'.proc p).state = (t.proc p).state) : Linked c t' := by
  refine ⟨fun x => (h.slot x).trans (hslot x).symm, hfree, fun p hp => ?_⟩
  rw [hstate] at hp
  exact (hslot (.inr p)).trans (h.idle p hp)

/-- One place is changed. -/
lemma Linked.update (h : Linked c t) (hx : t'.slot x = r.map Prod.fst)
    (hslot : ∀ y, y ≠ x → t'.slot y = t.slot y)
    (hfree : ∀ f, (t'.file f).ref = 0 → (t'.file f).type = .none)
    (hidle : ∀ p, (t'.proc p).state ≠ .running → (t'.proc p).cwd = none) :
    Linked (Function.update c x r) t' := by
  refine ⟨fun y => ?_, hfree, hidle⟩
  rcases eq_or_ne y x with rfl | hy
  · rw [Function.update_self, hx]
  · rw [Function.update_of_ne hy, hslot y hy]
    exact h.slot y

lemma slot_setProc {y : Proc} (hy : .inr p ≠ x) : (t.setProc p y).slot x = t.slot x := by
  cases x with
  | inl f => rfl
  | inr q =>
    have hq : q ≠ p := fun heq => hy (congrArg Sum.inr heq.symm)
    exact congrArg Proc.cwd (setProc_proc_of_ne hq)

lemma slot_setFile (hy : .inl f ≠ x) : (t.setFile f y).slot x = t.slot x := by
  cases x with
  | inl g =>
    have hg : g ≠ f := fun heq => hy (congrArg Sum.inl heq.symm)
    simp only [Tables.slot, setFile_file_of_ne hg]
  | inr q => rfl

lemma slot_setOfile (ofile : Fin NOFILE → Option (Fin NFILE)) :
    (t.setProc p { t.proc p with ofile := ofile }).slot x = t.slot x := by
  by_cases hx : .inr p = x
  · subst hx
    simp [Tables.slot]
  · exact slot_setProc hx

lemma state_setOfile {q : Fin NPROC} (ofile : Fin NOFILE → Option (Fin NFILE)) :
    ((t.setProc p { t.proc p with ofile := ofile }).proc q).state = (t.proc q).state := by
  rcases eq_or_ne q p with rfl | hq
  · rw [setProc_proc_self]
  · rw [setProc_proc_of_ne hq]

/-- A file that has no inode is changed, and still has none. -/
lemma Linked.setFile_none (h : Linked c t) (htype : (t.file f).type = .none) (hy : y.type = .none) :
    Linked c (t.setFile f y) := by
  refine h.of_slot ?_ ?_ fun _ => rfl
  · intro x
    by_cases hx : .inl f = x
    · subst hx
      simp [Tables.slot, htype, hy]
    · exact slot_setFile hx
  · intro g
    rcases eq_or_ne g f with rfl | hg
    · simp [hy]
    · rw [setFile_file_of_ne hg]
      exact h.free g

lemma writable_setFile (hc : c (.inl f) = none) : writable c (t.setFile f y) = writable c t := by
  ext n
  refine exists_congr fun g => exists_congr fun ip => and_congr_right fun hg => ?_
  have hne : g ≠ f := by
    rintro rfl
    rw [hc] at hg
    cases hg
  rw [setFile_file_of_ne hne]

/-- A process gets another working directory, or none. -/
lemma Linked.setCwd (h : Linked c t) {y : Proc} (hy : y.cwd = r.map Prod.fst)
    (hidle : y.state ≠ .running → y.cwd = none) :
    Linked (Function.update c (.inr p) r) (t.setProc p y) := by
  refine h.update ?_ (fun z hz => slot_setProc hz.symm) h.free fun q hq => ?_
  · rw [← hy]
    exact congrArg Proc.cwd setProc_proc_self
  · rcases eq_or_ne q p with rfl | hqp
    · rw [setProc_proc_self] at hq ⊢
      exact hidle hq
    · rw [setProc_proc_of_ne hqp] at hq ⊢
      exact h.idle q hq

lemma writable_setProc {y : Proc} :
    writable (Function.update c (.inr p) r) (t.setProc p y) = writable c t := by
  ext n
  refine exists_congr fun g => exists_congr fun ip => ?_
  rw [Function.update_of_ne Sum.inl_ne_inr]
  exact Iff.rfl

lemma setProc_setProc {y z : Proc} : (t.setProc p y).setProc p z = t.setProc p z := by
  rw [Tables.setProc, Tables.setProc, Tables.setProc, Function.update_idem]

end Tables

/-! ### Files -/

namespace Inv

variable {L : Layout} {s : State} {np : Fin NPROC}

variable {t : Tables} {c : Slot → Option (Iref × ℕ)} {other fd : ℤ} {src : Source}

/-- The tables have changed, but not the references. -/
lemma of_slot (h : Inv L s) (hslot : ∀ x, t.slot x = s.slot x)
    (hfree : ∀ f, (t.file f).ref = 0 → (t.file f).type = .none)
    (hwritable : ∀ f, (t.slot (.inl f)).isSome → (t.file f).writable = (s.file f).writable)
    (hstate : ∀ p, (t.proc p).state = (s.proc p).state) : Inv L (s.setTables t) := by
  obtain ⟨hroot, c, hlink, hhold⟩ := h
  refine ⟨hroot, c, hlink.of_slot hslot hfree hstate, hhold.mono fun A hA n hn => hA n ?_⟩
  obtain ⟨f, ip, hc, hw⟩ := hn
  refine ⟨f, ip, hc, ?_⟩
  rw [← hwritable f]
  · exact hw
  · have := hlink.slot (.inl f)
    rw [hc] at this
    rw [hslot, ← this]
    rfl

/-- A change to a file that concerns neither its inode nor what may be done with it. -/
lemma setFile (h : Inv L s) {x : File} (htype : x.type = (s.file f).type)
    (hip : x.ip = (s.file f).ip) (hwritable : x.writable = (s.file f).writable)
    (hfree : x.ref = 0 → x.type = .none) : Inv L (s.setTables (s.setFile f x)) := by
  have hfile : ∀ g, (s.setFile f x).file g = if g = f then x else s.file g := by
    intro g
    exact Function.update_apply ..
  obtain ⟨-, c, hlink, -⟩ := id h
  refine h.of_slot ?_ ?_ ?_ fun _ => rfl
  · intro y
    by_cases hy : .inl f = y
    · subst hy
      simp only [Tables.slot, hfile, if_pos, htype, hip]
    · exact slot_setFile hy
  · intro g
    rw [hfile]
    split
    · exact hfree
    · exact hlink.free g
  · intro g _
    rw [hfile]
    split
    · next hg => rw [hwritable, hg]
    · rfl

/-- A change to the descriptors of a process. -/
lemma setOfile (h : Inv L s) (ofile : Fin NOFILE → Option (Fin NFILE)) :
    Inv L (s.setTables (s.setProc p { s.proc p with ofile := ofile })) := by
  obtain ⟨-, c, hlink, -⟩ := id h
  exact h.of_slot (fun _ => slot_setOfile ofile) hlink.free (fun _ _ => rfl)
    fun _ => state_setOfile ofile

lemma wp_filealloc {Q : Option (Fin NFILE) → State → Prop}
    (hfree : ∀ f, (s.file f).ref = 0 → (s.file f).type = .none) (hnone : Q none s)
    (hsome : ∀ f x, (s.file f).type = .none → x.type = .none → x.ref = 1 →
      Q (some f) (s.setTables (s.setFile f x))) :
    wp Halt.Ok filealloc Q s := by
  simp only [filealloc, wp_bind, wp_get]
  split
  · next f hfind =>
    have htype := hfree f (by simpa using List.find?_some hfind)
    exact hsome f _ htype htype rfl
  · exact hnone

lemma wp_filedup {Q : PUnit → State → Prop} (h : Inv L s)
    (hQ : ∀ s', Inv L s' → s'.proc = s.proc → Q ⟨⟩ s') : wp Halt.Ok (filedup f) Q s := by
  simp only [filedup, wp_bind, wp_get]
  apply wp_ite
  · exact fun _ => trivial
  · intro hpos
    refine hQ _ (h.setFile rfl rfl rfl fun hzero => ?_) rfl
    have : (s.file f).ref + 1 = 0 := hzero
    omega

lemma wp_fdalloc {Q : Option (Fin NOFILE) → State → Prop} (hnone : Q none s)
    (hsome : ∀ fd ofile, Q (some fd)
      (s.setTables (s.setProc p { s.proc p with ofile := ofile }))) :
    wp Halt.Ok (fdalloc p f) Q s := by
  simp only [fdalloc, wp_bind, wp_get]
  split
  · exact hsome _ _
  · exact hnone

/-- A file that has not been filled in is closed. -/
lemma wp_fileclose_fresh {Q : PUnit → State → Prop} (htype : (s.file f).type = .none)
    (hone : (s.file f).ref = 1)
    (hQ : ∀ y, y.type = .none → Q ⟨⟩ (s.setTables (s.setFile f y))) :
    wp Halt.Ok (fileclose L.toSuperblock f) Q s := by
  simp only [fileclose, wp_bind, wp_get]
  rw [if_neg (by omega), if_neg (by omega), wp_bind]
  refine wp_setFile_of fun _ y _ hy => ?_
  rw [closeType, if_neg (by simp [htype])]
  exact hQ y (by rw [hy])

/-- The last reference to a file drops the one to its inode. -/
lemma wp_fileclose {Q : PUnit → State → Prop} (h : Inv L s)
    (hQ : ∀ s', Inv L s' → s'.proc = s.proc → Q ⟨⟩ s') :
    wp Halt.Ok (fileclose L.toSuperblock f) Q s := by
  simp only [fileclose, wp_bind, wp_get]
  apply wp_ite
  · exact fun _ => trivial
  intro _
  apply wp_ite
  · intro hpos
    refine hQ _ (h.setFile rfl rfl rfl fun hzero => ?_) rfl
    have : (s.file f).ref - 1 = 0 := hzero
    omega
  intro _
  rw [wp_bind, wp_setFile, closeType]
  obtain ⟨hroot, c, hlink, hhold⟩ := id h
  set x : File := { s.file f with ref := 0, type := .none } with hx
  have hfile : ∀ g, (s.setFile f x).file g = if g = f then x else s.file g :=
    fun g => Function.update_apply ..
  have hfree : ∀ g, ((s.setFile f x).file g).ref = 0 → ((s.setFile f x).file g).type = .none := by
    intro g
    rw [hfile]
    split
    · exact fun _ => rfl
    · exact hlink.free g
  have hslot : (s.setFile f x).slot (.inl f) = none :=
    if_neg (by rw [hfile, if_pos rfl]; simp [hx])
  apply wp_ite
  · intro htype
    obtain ⟨n, hc⟩ := hlink.mem (x := .inl f) (if_pos htype)
    have hlink' : Linked (Function.update c (.inl f) none) (s.setFile f x) :=
      hlink.update hslot (fun y hy => slot_setFile hy.symm) hfree hlink.idle
    have hsub : ∀ A, NoDirs (writable c s.toTables) A →
        NoDirs (writable (Function.update c (.inl f) none) (s.setFile f x)) A := by
      rintro A hA m ⟨g, ip, hg, hw⟩
      have hne : g ≠ f := by
        rintro rfl
        rw [Function.update_self] at hg
        cases hg
      rw [Function.update_of_ne (by simpa using hne)] at hg
      rw [hfile, if_neg hne] at hw
      exact hA m ⟨g, ip, hg, hw⟩
    rw [handles_clear hc] at hhold
    rw [wp_bind, wp_onFs]
    apply (hhold.mono hsub).wp_beginOp
    intro fs₁ h₁
    rw [wp_bind, wp_onFs]
    apply h₁.wp_iput stable_writable (by simp [handles])
    intro fs₂ h₂
    rw [wp_onFs]
    apply h₂.wp_endOp
    intro fs₃ h₃
    exact hQ _ ⟨hroot, _, hlink', h₃⟩ rfl
  · intro htype
    refine hQ _ (h.of_slot ?_ hfree ?_ fun _ => rfl) rfl
    · intro y
      by_cases hy : .inl f = y
      · subst hy
        rw [hslot]
        exact (if_neg htype).symm
      · exact slot_setFile hy
    · intro g hg
      have hne : g ≠ f := by
        rintro rfl
        rw [hslot] at hg
        cases hg
      rw [hfile, if_neg hne]

/-! ### Names -/

lemma wp_getCwd {Q : Iref → State → Prop} (hQ : ∀ ip, (s.proc p).cwd = some ip → Q ip s) :
    wp Halt.Ok (getCwd p) Q s := by
  simp only [getCwd, wp_bind, wp_get]
  split
  · next ip hcwd => exact hQ ip hcwd
  · exact trivial

/-- A transaction that keeps no references. -/
lemma wp_transaction {α : Type} {c : Iref → FsM α} {Q : α → State → Prop} (h : Inv L s)
    (hc : ∀ (H : Handles) (P : Files → Prop) cwd n fs, Stable H P → OfTypes P → Caller L H cwd n →
      Holding L H P fs → wp Fs.Halt.Benign (c cwd) (fun _ => Holding L H P) fs)
    (hQ : ∀ a s', Inv L s' → s'.toTables = s.toTables → Q a s') :
    wp Halt.Ok (transaction p c) Q s := by
  obtain ⟨hroot, d, hlink, hhold⟩ := h
  rw [transaction, wp_bind, wp_onFs]
  apply hhold.wp_beginOp
  intro fs₁ h₁
  rw [wp_bind]
  apply wp_getCwd
  intro cwd hcwd
  obtain ⟨n, hd⟩ := hlink.mem (x := .inr p) hcwd
  rw [wp_bind, wp_onFs]
  apply (hc _ _ cwd n fs₁ stable_writable NoDirs.ofTypes
    ⟨hroot, mem_handles hd, Finset.notMem_empty⟩ h₁).mono
  intro a fs₂ h₂
  rw [wp_bind, wp_onFs]
  apply h₂.wp_endOp
  intro fs₃ h₃
  exact hQ a _ ⟨hroot, d, hlink, h₃⟩ rfl

lemma wp_noPath (h : Inv L s) : wp Halt.Ok noPath (fun _ => Inv L) s := by
  obtain ⟨hroot, d, hlink, hhold⟩ := h
  rw [noPath, wp_bind, wp_onFs]
  apply hhold.wp_beginOp
  intro fs₁ h₁
  rw [wp_bind, wp_onFs]
  apply h₁.wp_endOp
  intro fs₂ h₂
  exact ⟨hroot, d, hlink, h₂⟩

/-- `open` puts the reference to the locked inode into a file, or drops it. -/
lemma wp_openFile {ip : Iref} {n omode : ℕ}
    (hroot : ROOTINO < L.ninodes) (hlink : Linked c s.toTables)
    (h : Holding L (((handles c).get ip n).lock ip)
      (AndFile (NoDirs (writable c s.toTables)) (omode ≠ O_RDONLY) n) s.fs) :
    wp Halt.Ok (openFile L.toSuperblock p ip omode) (fun _ => Inv L) s := by
  have hdrop : ∀ t : Tables, Linked c t → writable c t = writable c s.toTables →
      wp Halt.Ok (do
        onFs (iunlockput L.toSuperblock ip)
        onFs endOp
        return (-1 : ℤ)) (fun _ => Inv L) (s.setTables t) := by
    intro t hlink' hwritable
    rw [wp_bind, wp_onFs]
    apply (h.mono fun A hA => hA.1).wp_iunlockput stable_writable (Finset.notMem_empty ip)
    intro fs₁ h₁
    rw [wp_bind, wp_onFs]
    apply h₁.wp_endOp
    intro fs₂ h₂
    refine ⟨hroot, c, hlink', ?_⟩
    rw [← hwritable] at h₂
    exact h₂
  simp only [openFile, wp_bind, wp_get]
  apply wp_filealloc hlink.free
  · exact hdrop _ hlink rfl
  intro f x htype hx hone
  have hslot : s.slot (.inl f) = none := if_neg (by rw [htype]; decide)
  have hc := hlink.eq_none hslot
  rw [wp_bind]
  apply wp_fdalloc
  · -- no descriptor: the file is closed at once
    rw [wp_bind]
    apply wp_fileclose_fresh
    · rw [State.setTables, setFile_file_self, hx]
    · rw [State.setTables, setFile_file_self, hone]
    intro y hy
    refine hdrop _ ((hlink.setFile_none htype hx).setFile_none ?_ hy) ?_
    · rw [setFile_file_self, hx]
    · exact (writable_setFile hc).trans (writable_setFile hc)
  intro fd ofile
  rw [wp_bind]
  refine wp_setFile_of fun z y hz hy => ?_
  obtain rfl : x = z := setFile_file_self.symm.trans hz
  -- the file has the reference from here on
  set t : Tables := ((s.setFile f x).setProc p { s.proc p with ofile := ofile }).setFile f y
  have hyip : y.ip = ip := by rw [hy]
  have hytype : y.type = .inode ∨ y.type = .device := by
    rw [hy]
    dsimp only
    split
    · exact .inr rfl
    · exact .inl rfl
  have hyref : y.ref ≠ 0 := by
    have : y.ref = x.ref := by
      rw [hy]
      dsimp only
      split <;> rfl
    rw [this, hone]
    decide
  have hywritable : y.writable = true → omode ≠ O_RDONLY := by
    rw [hy]
    rintro hw rfl
    simp [O_RDONLY] at hw
  have hlink' : Linked (Function.update c (.inl f) (some (ip, n))) t := by
    refine hlink.update ?_ ?_ ?_ ?_
    · rw [Tables.slot, setFile_file_self, if_pos hytype, hyip]
      rfl
    · intro z hz
      exact (slot_setFile hz.symm).trans ((slot_setOfile (t := s.setFile f x) ofile).trans
        (slot_setFile hz.symm))
    · intro g
      rcases eq_or_ne g f with rfl | hg
      · rw [setFile_file_self]
        exact fun hzero => absurd hzero hyref
      · rw [setFile_file_of_ne hg]
        exact (hlink.setFile_none htype hx).free g
    · intro q hq
      rw [show (t.proc q).state = (s.proc q).state from
        state_setOfile (t := s.setFile f x) ofile] at hq
      exact (slot_setOfile (t := s.setFile f x) (x := .inr q) ofile).trans (hlink.idle q hq)
  have hkeep : ∀ fs', Holding L ((handles c).get ip n)
      (AndFile (NoDirs (writable c s.toTables)) (omode ≠ O_RDONLY) n) fs' →
      Inv L (.setFs fs' (s.setTables t)) := by
    intro fs' h'
    rw [← handles_update hc ip n] at h'
    refine ⟨hroot, _, hlink', h'.mono ?_⟩
    rintro A hA m ⟨g, jp, hg, hw⟩
    rcases eq_or_ne g f with rfl | hne
    · rw [Function.update_self] at hg
      cases hg
      refine hA.2 (hywritable ?_) n rfl
      rw [← hw]
      exact congrArg File.writable setFile_file_self.symm
    · rw [Function.update_of_ne (by simpa using hne)] at hg
      refine hA.1 m ⟨g, jp, hg, ?_⟩
      rw [← hw]
      exact congrArg File.writable
        ((setFile_file_of_ne hne).trans (setFile_file_of_ne hne)).symm
  have hr : (ip, n) ∈ ((handles c).get ip n).refs := Handles.mem_get_self
  have hunlock : ∀ fs₁, Holding L (((handles c).get ip n).lock ip)
      (AndFile (NoDirs (writable c s.toTables)) (omode ≠ O_RDONLY) n) fs₁ →
      wp Halt.Ok (do
        onFs (iunlock ip)
        onFs endOp
        return (fd : ℤ)) (fun _ => Inv L) (.setFs fs₁ (s.setTables t)) := by
    intro fs₁ h₁
    rw [wp_bind, wp_onFs]
    apply h₁.wp_iunlock hr (Finset.notMem_empty ip)
    intro fs₂ h₂
    rw [wp_bind, wp_onFs]
    apply h₂.wp_endOp
    exact fun fs₃ h₃ => hkeep fs₃ h₃
  apply wp_ite
  · intro _
    rw [wp_bind, wp_onFs]
    apply h.wp_itrunc (H := ((handles c).get ip n).lock ip) hr
      Handles.mem_lock_self NoDirs.ofTypes.andFile
    exact hunlock
  · intro _
    exact hunlock _ h

lemma wp_sysOpen {path : Option CStr} {omode : ℕ} (h : Inv L s) :
    wp Halt.Ok (sysOpen L.toSuperblock p path omode) (fun _ => Inv L) s := by
  cases path with
  | none => exact h
  | some path =>
    obtain ⟨hroot, c, hlink, hhold⟩ := h
    rw [sysOpen, wp_bind, wp_onFs]
    apply hhold.wp_beginOp
    intro fs₁ h₁
    rw [wp_bind]
    apply wp_getCwd
    intro cwd hcwd
    obtain ⟨n, hc⟩ := hlink.mem (x := .inr p) hcwd
    rw [wp_bind, wp_onFs]
    apply h₁.wp_openInode stable_writable NoDirs.ofTypes
      ⟨hroot, mem_handles hc, Finset.notMem_empty⟩
    · intro fs₂ h₂
      rw [wp_bind, wp_onFs]
      apply h₂.wp_endOp
      exact fun fs₃ h₃ => ⟨hroot, c, hlink, h₃⟩
    intro ip m fs₂ h₂
    simp only [wp_bind, wp_get]
    apply wp_ite
    · intro _
      rw [wp_bind, wp_onFs]
      apply (h₂.mono fun A hA => hA.1).wp_iunlockput stable_writable (Finset.notMem_empty ip)
      intro fs₃ h₃
      rw [wp_bind, wp_onFs]
      apply h₃.wp_endOp
      exact fun fs₄ h₄ => ⟨hroot, c, hlink, h₄⟩
    · intro _
      exact wp_openFile hroot hlink h₂

variable {fs : Fs.State}

/-- The working directory of a process is exchanged. -/
lemma of_cwd {y : Proc} (hroot : ROOTINO < L.ninodes) (hlink : Linked c s.toTables)
    (h : Holding L (handles (Function.update c (.inr p) r)) (NoDirs (writable c s.toTables)) fs)
    (hy : y.cwd = r.map Prod.fst) (hidle : y.state ≠ .running → y.cwd = none) :
    Inv L (.setFs fs (s.setTables (s.setProc p y))) := by
  refine ⟨hroot, _, hlink.setCwd hy hidle, ?_⟩
  show Holding L _ (NoDirs (writable _ (s.setProc p y))) fs
  rw [writable_setProc]
  exact h

lemma wp_sysChdir {path : Option CStr} (h : Inv L s) (hrunning : (s.proc p).state = .running) :
    wp Halt.Ok (sysChdir L.toSuperblock p path) (fun _ => Inv L) s := by
  cases path with
  | none => exact h.wp_noPath
  | some path =>
    obtain ⟨hroot, c, hlink, hhold⟩ := h
    rw [sysChdir, transaction, wp_bind, wp_bind, wp_onFs]
    apply hhold.wp_beginOp
    intro fs₁ h₁
    rw [wp_bind]
    apply wp_getCwd
    intro cwd hcwd
    obtain ⟨n, hc⟩ := hlink.mem (x := .inr p) hcwd
    have hst : Stable (handles (Function.update c (.inr p) none))
        (NoDirs (writable c s.toTables)) := by
      rw [← writable_setProc (p := p) (y := s.proc p) (r := none)]
      exact stable_writable
    rw [handles_clear hc] at h₁
    rw [wp_bind, wp_onFs]
    apply h₁.wp_sysChdir hst hroot Finset.notMem_empty
    · intro fs₂ h₂
      rw [wp_bind, wp_onFs]
      apply h₂.wp_endOp
      intro fs₃ h₃
      rw [← handles_clear hc] at h₃
      exact ⟨hroot, c, hlink, h₃⟩
    · intro ip m fs₂ h₂
      rw [wp_bind, wp_onFs]
      apply h₂.wp_endOp
      intro fs₃ h₃
      rw [← handles_update (Function.update_self ..), Function.update_idem] at h₃
      exact of_cwd hroot hlink h₃ rfl fun hstate => absurd hrunning hstate

/-! ### Reading and writing -/

lemma wp_advance {Q : PUnit → State → Prop} {r : ℤ}
    (hQ : ∀ y, y.type = (s.file f).type → y.ip = (s.file f).ip →
      y.writable = (s.file f).writable → y.ref = (s.file f).ref →
      Q ⟨⟩ (s.setTables (s.setFile f y))) : wp Halt.Ok (advance f r) Q s := by
  rw [advance]
  refine wp_setFile_of fun x y hx hy => ?_
  subst hx
  by_cases hr : 0 < r
  · rw [if_pos hr] at hy
    subst hy
    exact hQ _ rfl rfl rfl rfl
  · rw [if_neg hr] at hy
    subst hy
    exact hQ _ rfl rfl rfl rfl

variable {n : Int32}

lemma wp_fileread {dst : ℕ → Bool} (h : Inv L s) :
    wp Halt.Ok (fileread L.toSuperblock f dst n other) (fun _ => Inv L) s := by
  simp only [fileread, wp_bind, wp_get]
  apply wp_ite
  · exact fun _ => h
  intro _
  split
  · exact h
  · apply wp_ite
    · exact fun _ => h
    · exact fun _ => h
  · next htype =>
    obtain ⟨hroot, c, hlink, hhold⟩ := h
    obtain ⟨m, hc⟩ := hlink.mem (x := .inl f) (if_pos (.inl htype))
    have hr := mem_handles hc
    rw [wp_bind, wp_onFs]
    apply hhold.wp_ilock hr
    intro fs₁ _ h₁
    rw [wp_bind, wp_onFs]
    apply h₁.wp_readi (H := (handles c).lock (s.file f).ip) hr
      Handles.mem_lock_self n.toUInt32.toNat_lt
    intro bs
    rw [wp_bind]
    apply wp_advance
    intro y hytype hyip hywritable hyref
    rw [wp_bind, wp_onFs]
    apply h₁.wp_iunlock hr (Finset.notMem_empty _)
    intro fs₂ h₂
    have hinv : Inv L (.setFs fs₂ s) := ⟨hroot, c, hlink, h₂⟩
    refine hinv.setFile (f := f) (x := y) hytype hyip hywritable fun hzero => ?_
    rw [hytype]
    exact hlink.free f (hyref.symm.trans hzero)
  · exact trivial

/-- A file that is open for writing is no directory. -/
lemma type_ne {ip : Iref} {n : ℕ}
    (h : Holding L ((handles c).lock ip) (NoDirs (writable c s.toTables)) fs)
    (hc : c (.inl f) = some (ip, n)) (hw : (s.file f).writable = true) :
    (fs.itable ip).type ≠ T_DIR := by
  obtain ⟨A, h, hA⟩ := h
  rw [(h.fields (mem_handles hc) Handles.mem_lock_self).1]
  exact (hA n ⟨f, ip, hc, hw⟩).2

lemma wp_writeChunks {Q : ℕ → State → Prop} {n fuel i : ℕ} (h : Inv L s) (hn : n < 2 ^ 32)
    (htype : (s.file f).type = .inode) (hw : (s.file f).writable = true)
    (hQ : ∀ i s', Inv L s' → Q i s') :
    wp Halt.Ok (writeChunks L.toSuperblock f src n fuel i) Q s := by
  induction fuel generalizing i s with
  | zero => exact hQ i s h
  | succ fuel ih =>
    rw [writeChunks]
    apply wp_ite
    · intro _
      obtain ⟨hroot, c, hlink, hhold⟩ := h
      obtain ⟨m, hc⟩ := hlink.mem (x := .inl f) (if_pos (.inl htype))
      have hr := mem_handles hc
      simp only [wp_bind, wp_get]
      rw [wp_onFs]
      apply hhold.wp_beginOp
      intro fs₁ h₁
      rw [wp_bind, wp_onFs]
      apply h₁.wp_ilock hr
      intro fs₂ _ h₂
      rw [wp_bind, wp_onFs]
      apply h₂.wp_writei (H := (handles c).lock (s.file f).ip) hr
        Handles.mem_lock_self NoDirs.ofTypes (by omega) (type_ne h₂ hc hw)
      intro r fs₃ h₃
      rw [wp_bind]
      apply wp_advance
      intro y hytype hyip hywritable hyref
      rw [wp_bind, wp_onFs]
      apply h₃.wp_iunlock hr (Finset.notMem_empty _)
      intro fs₄ h₄
      rw [wp_bind, wp_onFs]
      apply h₄.wp_endOp
      intro fs₅ h₅
      have hinv : Inv L (.setFs fs₅ s) := ⟨hroot, c, hlink, h₅⟩
      have hinv' := hinv.setFile (f := f) (x := y) hytype hyip hywritable fun hzero => by
        rw [hytype]
        exact hlink.free f (hyref.symm.trans hzero)
      have hfile : ((State.setFs fs₅ s).setTables ((State.setFs fs₅ s).setFile f y)).file f = y :=
        setFile_file_self
      apply wp_ite
      · exact fun _ => hQ _ _ hinv'
      · intro _
        apply ih hinv'
        · rw [hfile, hytype]
          exact htype
        · rw [hfile, hywritable]
          exact hw
    · exact fun _ => hQ i s h

lemma wp_filewrite (h : Inv L s) :
    wp Halt.Ok (filewrite L.toSuperblock f src n other) (fun _ => Inv L) s := by
  simp only [filewrite, wp_bind, wp_get]
  apply wp_ite
  · exact fun _ => h
  intro hw
  split
  · exact h
  · apply wp_ite
    · exact fun _ => h
    · exact fun _ => h
  · next htype =>
    rw [wp_bind]
    apply h.wp_writeChunks _ htype (Bool.eq_true_of_not_eq_false hw)
    · intro i s' h'
      apply wp_ite
      · exact fun _ => h'
      · exact fun _ => h'
    · have := n.toInt_lt
      omega
  · exact trivial

/-! ### Descriptors -/

lemma wp_argfd {Q : Option (Fin NOFILE × Fin NFILE) → State → Prop} (hQ : ∀ r, Q r s) :
    wp Halt.Ok (argfd p fd) Q s := by
  simp only [argfd, wp_bind, wp_get]
  split
  · exact hQ _
  · exact hQ _

lemma wp_sysDup (h : Inv L s) : wp Halt.Ok (sysDup p fd) (fun _ => Inv L) s := by
  rw [sysDup, wp_bind]
  apply wp_argfd
  rintro (_ | ⟨_, f⟩)
  · exact h
  rw [wp_bind]
  apply wp_fdalloc
  · exact h
  intro fd' ofile
  rw [wp_bind]
  exact (h.setOfile ofile).wp_filedup fun _ h' _ => h'

lemma wp_sysClose (h : Inv L s) :
    wp Halt.Ok (sysClose L.toSuperblock p fd) (fun _ => Inv L) s := by
  rw [sysClose, wp_bind]
  apply wp_argfd
  rintro (_ | ⟨fd', f⟩)
  · exact h
  rw [wp_bind, wp_setFd, wp_bind]
  exact (h.setOfile _).wp_fileclose fun _ h' _ => h'

lemma wp_sysRead {dst : ℕ → Bool} (h : Inv L s) :
    wp Halt.Ok (sysRead L.toSuperblock p fd dst n other) (fun _ => Inv L) s := by
  rw [sysRead, wp_bind]
  apply wp_argfd
  rintro (_ | ⟨_, f⟩)
  · exact h
  · exact h.wp_fileread

lemma wp_sysWrite (h : Inv L s) :
    wp Halt.Ok (sysWrite L.toSuperblock p fd src n other) (fun _ => Inv L) s := by
  rw [sysWrite, wp_bind]
  apply wp_argfd
  rintro (_ | ⟨_, f⟩)
  · exact h
  · exact h.wp_filewrite

/-! ### Pipes -/

/-- A file that is in use, but has no inode. -/
def Unbound (x : File) : Prop := (x.type = .none ∨ x.type = .pipe) ∧ x.ref ≠ 0

lemma unbound_setFile {g : Fin NFILE} (hy : Unbound y) (hg : Unbound (t.file g)) :
    Unbound ((t.setFile f y).file g) := by
  rcases eq_or_ne g f with rfl | hne
  · rw [setFile_file_self]
    exact hy
  · rw [setFile_file_of_ne hne]
    exact hg

/-- A file that has no inode is changed. -/
lemma setFile_unbound (h : Inv L s) (htype : (s.file f).type = .none ∨ (s.file f).type = .pipe)
    (hy : Unbound y) : Inv L (s.setTables (s.setFile f y)) := by
  have hslot : s.slot (.inl f) = none := by
    rcases htype with htype | htype <;> simp [Tables.slot, htype]
  have hslot' : (s.setFile f y).slot (.inl f) = none := by
    rcases hy.1 with hy | hy <;> simp [Tables.slot, hy]
  obtain ⟨-, c, hlink, -⟩ := id h
  refine h.of_slot ?_ ?_ ?_ fun _ => rfl
  · intro x
    by_cases hx : .inl f = x
    · rw [← hx, hslot', hslot]
    · exact slot_setFile hx
  · intro g
    rcases eq_or_ne g f with rfl | hg
    · rw [setFile_file_self]
      exact fun hzero => absurd hzero hy.2
    · rw [setFile_file_of_ne hg]
      exact hlink.free g
  · intro g hg
    have hne : g ≠ f := by
      rintro rfl
      rw [hslot'] at hg
      cases hg
    rw [setFile_file_of_ne hne]

lemma wp_closeBoth {rf wf : Fin NFILE} (h : Inv L s) :
    wp Halt.Ok (closeBoth L.toSuperblock rf wf) (fun _ => Inv L) s := by
  rw [closeBoth, wp_bind]
  apply h.wp_fileclose
  intro s₁ h₁ _
  rw [wp_bind]
  exact h₁.wp_fileclose fun _ h₂ _ => h₂

/-- `pipealloc` gets a file. -/
lemma wp_filealloc_unbound {Q : Option (Fin NFILE) → State → Prop} (h : Inv L s) (hnone : Q none s)
    (hsome : ∀ f s', Inv L s' → Unbound (s'.file f) →
      (∀ g, Unbound (s.file g) → Unbound (s'.file g)) → Q (some f) s') :
    wp Halt.Ok filealloc Q s := by
  obtain ⟨-, c, hlink, -⟩ := id h
  refine wp_filealloc hlink.free hnone fun f x htype hx hone => ?_
  have hun : Unbound x := ⟨.inl hx, by rw [hone]; decide⟩
  refine hsome f _ (h.setFile_unbound (.inl htype) hun) ?_ fun g hg => unbound_setFile hun hg
  rw [State.setTables, setFile_file_self]
  exact hun

/-- A file of a pipe is filled in. -/
lemma wp_setFile_unbound {Q : PUnit → State → Prop} {u : File → File} (h : Inv L s)
    (hf : Unbound (s.file f)) (hu : ∀ x, Unbound x → Unbound (u x))
    (hQ : ∀ s', Inv L s' → (∀ g, Unbound (s.file g) → Unbound (s'.file g)) → Q ⟨⟩ s') :
    wp Halt.Ok (Sysfile.setFile f u) Q s := by
  rw [wp_setFile]
  exact hQ _ (h.setFile_unbound hf.1 (hu _ hf)) fun g hg => unbound_setFile (hu _ hf) hg

lemma wp_sysPipe {page copied : Bool} (h : Inv L s) :
    wp Halt.Ok (sysPipe L.toSuperblock p page copied) (fun _ => Inv L) s := by
  rw [sysPipe, wp_bind]
  apply h.wp_filealloc_unbound
  · exact h
  intro rf s₁ h₁ hrf _
  rw [wp_bind]
  apply h₁.wp_filealloc_unbound
  · rw [wp_bind]
    exact h₁.wp_fileclose fun _ h' _ => h'
  intro wf s₂ h₂ hwf hkeep
  apply wp_ite
  · exact fun _ => h₂.wp_closeBoth
  intro _
  rw [wp_bind]
  refine h₂.wp_setFile_unbound (hkeep rf hrf) ?_ fun s₃ h₃ hkeep' => ?_
  · exact fun x hx => ⟨.inr rfl, hx.2⟩
  rw [wp_bind]
  refine h₃.wp_setFile_unbound (hkeep' wf hwf) ?_ fun s₄ h₄ _ => ?_
  · exact fun x hx => ⟨.inr rfl, hx.2⟩
  rw [wp_bind]
  apply wp_fdalloc
  · exact h₄.wp_closeBoth
  intro fd0 ofile
  have h₅ := h₄.setOfile (p := p) ofile
  rw [wp_bind]
  apply wp_fdalloc
  · rw [wp_bind, wp_setFd]
    exact (h₅.setOfile _).wp_closeBoth
  intro fd1 ofile'
  have h₆ := h₅.setOfile (p := p) ofile'
  apply wp_ite
  · exact fun _ => h₆
  · intro _
    rw [wp_bind, wp_setFd, wp_bind, wp_setFd]
    exact ((h₆.setOfile _).setOfile _).wp_closeBoth

/-! ### Programs -/

section Load

variable {H : Handles} {P : Files → Prop} {ip : Iref} {n : ℕ}
  {Q : Bool → Fs.State → Prop}

lemma wp_loadseg {offset sz : ℕ} {is : List ℕ} (h : Holding L H P fs) (hr : (ip, n) ∈ H.refs)
    (hheld : ip ∈ H.held) (hQ : ∀ r, Q r fs) :
    wp Fs.Halt.Benign (loadseg L.toSuperblock ip offset sz is) Q fs := by
  induction is with
  | nil => exact hQ _
  | cons i is ih =>
    rw [loadseg, wp_bind]
    apply h.wp_readi hr hheld
    · exact lt_of_le_of_lt (min_le_right _ _) (by decide)
    intro bs
    apply wp_ite
    · exact fun _ => ih
    · exact fun _ => hQ _

lemma wp_loadSegments {mem : ℕ → Bool} {k i off : ℕ} (h : Holding L H P fs)
    (hr : (ip, n) ∈ H.refs) (hheld : ip ∈ H.held) (hQ : ∀ r, Q r fs) :
    wp Fs.Halt.Benign (loadSegments L.toSuperblock ip mem k i off) Q fs := by
  induction k generalizing i off with
  | zero => exact hQ _
  | succ k ih =>
    rw [loadSegments, wp_bind]
    apply h.wp_readi hr hheld (by decide)
    intro bs
    cases bs with
    | none => exact hQ _
    | some ph =>
      apply wp_ite
      · exact fun _ => hQ _
      intro _
      cases segment ph (mem i) with
      | skip => exact ih
      | bad => exact hQ _
      | load offset sz =>
        rw [wp_bind]
        apply wp_loadseg h hr hheld
        intro r
        apply wp_ite
        · exact fun _ => ih
        · exact fun _ => hQ _

lemma wp_load {m : ExecMem} (h : Holding L H P fs) (hr : (ip, n) ∈ H.refs) (hheld : ip ∈ H.held)
    (hQ : ∀ r, Q r fs) : wp Fs.Halt.Benign (load L.toSuperblock ip m) Q fs := by
  rw [load, wp_bind]
  apply h.wp_readi hr hheld (by decide)
  intro bs
  cases bs with
  | none => exact hQ _
  | some elf =>
    refine wp_ite (fun _ => hQ _) fun _ => wp_ite (fun _ => hQ _) fun _ => ?_
    exact wp_ite (fun _ => hQ _) fun _ => wp_loadSegments h hr hheld hQ

end Load

lemma wp_exec {H : Handles} {P : Files → Prop} {cwd : Iref} {n : ℕ} {path : CStr} {m : ExecMem}
    (h : Holding L H P fs) (hst : Stable H P) (hc : Caller L H cwd n) :
    wp Fs.Halt.Benign (exec L.toSuperblock cwd path m) (fun _ => Holding L H P) fs := by
  rw [exec, wp_bind]
  apply h.wp_namei hst hc
  · exact fun _ h₁ => h₁
  intro ip k fs₁ h₁
  have hr : (ip, k) ∈ (H.get ip k).refs := Handles.mem_get_self
  rw [wp_bind]
  apply h₁.wp_ilock hr
  intro fs₂ _ h₂
  rw [wp_bind]
  apply wp_load (H := (H.get ip k).lock ip) h₂ hr Handles.mem_lock_self
  intro r
  apply wp_ite
  · intro _
    rw [wp_bind]
    exact h₂.wp_iunlockput hst (hc.out ip) fun _ h₃ => h₃
  · intro _
    rw [wp_bind]
    exact h₂.wp_iunlockput hst (hc.out ip) fun _ h₃ => h₃

/-! ### Processes -/

lemma wp_dupFiles {Q : PUnit → State → Prop} {is : List (Fin NOFILE)} (h : Inv L s)
    (hQ : ∀ s', Inv L s' → (∀ q, (s'.proc q).state = (s.proc q).state) → Q ⟨⟩ s') :
    wp Halt.Ok (dupFiles p np is) Q s := by
  induction is generalizing s with
  | nil => exact hQ s h fun _ => rfl
  | cons i is ih =>
    simp only [dupFiles, wp_bind, wp_get]
    split
    · exact ih h hQ
    · rw [wp_bind]
      apply h.wp_filedup
      intro s₁ h₁ hproc
      rw [wp_bind, wp_setFd]
      apply ih (h₁.setOfile _)
      intro s₂ h₂ hstate
      refine hQ s₂ h₂ fun q => (hstate q).trans ?_
      rw [← hproc]
      exact state_setOfile _

lemma wp_closeFiles {fds : List (Fin NOFILE)} (h : Inv L s) :
    wp Halt.Ok (closeFiles L.toSuperblock p fds) (fun _ => Inv L) s := by
  induction fds generalizing s with
  | nil => exact h
  | cons fd fds ih =>
    simp only [closeFiles, wp_bind, wp_get]
    split
    · exact ih h
    · rw [wp_bind]
      apply h.wp_fileclose
      intro s₁ h₁ _
      rw [wp_bind, wp_setFd]
      exact ih (h₁.setOfile _)

lemma wp_fork {mem : Bool} (h : Inv L s) :
    wp Halt.Ok (fork p mem) (fun _ => Inv L) s := by
  simp only [fork, wp_bind, wp_get]
  split
  · exact h
  next np hfind =>
  have hunused : (s.proc np).state = .unused := by simpa using List.find?_some hfind
  apply wp_ite
  · exact fun _ => h
  intro _
  rw [wp_bind]
  apply h.wp_dupFiles
  intro s₁ h₁ hstate
  rw [wp_bind]
  apply wp_getCwd
  intro ip hcwd
  obtain ⟨hroot, c, hlink, hhold⟩ := h₁
  obtain ⟨n, hc⟩ := hlink.mem (x := .inr p) hcwd
  have hnone : c (.inr np) = none := by
    apply hlink.eq_none
    apply hlink.idle
    rw [hstate, hunused]
    decide
  rw [wp_bind, wp_onFs]
  apply hhold.wp_idup (mem_handles hc)
  intro fs₂ h₂
  rw [← handles_update hnone] at h₂
  rw [wp_bind, wp_setProc, wp_bind, wp_setProc]
  refine (congrArg (Inv L) ?_).mp
    (of_cwd (y := { s₁.proc np with state := .running, cwd := some ip }) hroot hlink h₂ rfl
      fun hstate' => absurd rfl hstate')
  simp only [State.setTables, State.setFs, setProc_proc_self, setProc_setProc]

lemma wp_exit (h : Inv L s) :
    wp Halt.Ok (exit L.toSuperblock p) (fun _ => Inv L) s := by
  simp only [exit, wp_bind, wp_get]
  apply wp_ite
  · exact fun _ => trivial
  intro _
  rw [wp_bind]
  apply h.wp_closeFiles.mono
  intro _ s₁ h₁
  obtain ⟨hroot, c, hlink, hhold⟩ := h₁
  rw [transaction, wp_bind, wp_bind, wp_onFs]
  apply hhold.wp_beginOp
  intro fs₁ h₁
  rw [wp_bind]
  apply wp_getCwd
  intro cwd hcwd
  obtain ⟨n, hc⟩ := hlink.mem (x := .inr p) hcwd
  have hst : Stable (handles (Function.update c (.inr p) none))
      (NoDirs (writable c s₁.toTables)) := by
    rw [← writable_setProc (p := p) (y := s₁.proc p) (r := none)]
    exact stable_writable
  rw [handles_clear hc] at h₁
  rw [wp_bind, wp_onFs]
  apply h₁.wp_iput hst (by simp [handles])
  intro fs₂ h₂
  rw [wp_bind, wp_onFs]
  apply h₂.wp_endOp
  intro fs₃ h₃
  rw [wp_pure, wp_bind, wp_setProc, wp_setProc]
  refine (congrArg (Inv L) ?_).mp
    (of_cwd (y := { s₁.proc p with state := .zombie, cwd := none }) hroot hlink h₃ rfl
      fun _ => rfl)
  simp only [State.setTables, State.setFs, setProc_proc_self, setProc_setProc]

lemma wp_userinit (h : Inv L s) :
    wp Halt.Ok (userinit L.toSuperblock) (fun _ => Inv L) s := by
  simp only [userinit, wp_bind, wp_get]
  split
  · exact trivial
  next p hfind =>
  have hunused : (s.proc p).state = .unused := by simpa using List.find?_some hfind
  obtain ⟨hroot, c, hlink, hhold⟩ := h
  have hnone : c (.inr p) = none := by
    apply hlink.eq_none
    apply hlink.idle
    rw [hunused]
    decide
  rw [wp_bind, wp_modify, wp_bind, wp_onFs]
  set s₁ : State := s.setTables { s.toTables with initproc := some p }
  have hlink₁ : Linked c s₁.toTables := ⟨hlink.slot, hlink.free, hlink.idle⟩
  rw [namei, wp_bind, namex, if_pos (show [slash].head? = some slash from rfl), wp_bind]
  apply hhold.wp_iget hroot
  intro ip fs₁ h₁
  apply h₁.wp_namexFrom stable_writable Finset.notMem_empty
  · intro fs₂ h₂
    refine of_cwd (s := s₁) (r := none) hroot hlink₁ ?_ rfl fun _ => rfl
    rw [Function.update_eq_self_iff.mpr hnone.symm]
    exact h₂
  · intro jp m _ fs₂ h₂
    rw [← handles_update hnone] at h₂
    exact of_cwd (s := s₁) hroot hlink₁ h₂ rfl fun hstate => absurd rfl hstate

/-! ### Sequences of calls -/

lemma wp_call {c : Call} (h : Inv L s) (hrunning : (s.proc p).state = .running) :
    wp Halt.Ok (c.run L.toSuperblock p) (fun _ => Inv L) s := by
  cases c with
  | «open» path omode => rw [Call.run, wp_bind]; exact h.wp_sysOpen
  | close fd => rw [Call.run, wp_bind]; exact h.wp_sysClose
  | dup fd => rw [Call.run, wp_bind]; exact h.wp_sysDup
  | read fd dst n other => rw [Call.run, wp_bind]; exact h.wp_sysRead
  | write fd src n other => rw [Call.run, wp_bind]; exact h.wp_sysWrite
  | link old new =>
    rw [Call.run, wp_bind]
    cases old with
    | none => exact h
    | some old =>
      cases new with
      | none => exact h
      | some new =>
        refine h.wp_transaction (fun H P cwd n fs hst hty hc hfs => ?_) fun _ _ h' _ => h'
        exact hfs.wp_sysLink hst hty hc fun _ _ h' => h'
  | unlink path =>
    rw [Call.run, wp_bind]
    cases path with
    | none => exact h
    | some path =>
      refine h.wp_transaction (fun H P cwd n fs hst hty hc hfs => ?_) fun _ _ h' _ => h'
      exact hfs.wp_sysUnlink hst hty hc fun _ _ h' => h'
  | mkdir path =>
    rw [Call.run, wp_bind]
    cases path with
    | none => exact h.wp_noPath
    | some path =>
      refine h.wp_transaction (fun H P cwd n fs hst hty hc hfs => ?_) fun _ _ h' _ => h'
      exact hfs.wp_sysMake hst hty hc fun _ _ h' => h'
  | mknod path major minor =>
    rw [Call.run, wp_bind]
    cases path with
    | none => exact h.wp_noPath
    | some path =>
      refine h.wp_transaction (fun H P cwd n fs hst hty hc hfs => ?_) fun _ _ h' _ => h'
      exact hfs.wp_sysMake hst hty hc fun _ _ h' => h'
  | chdir path => rw [Call.run, wp_bind]; exact h.wp_sysChdir hrunning
  | pipe page copied => rw [Call.run, wp_bind]; exact h.wp_sysPipe
  | exec path m =>
    rw [Call.run, wp_bind]
    cases path with
    | none => exact h
    | some path =>
      refine h.wp_transaction (fun H P cwd n fs hst hty hc hfs => ?_) fun _ _ h' _ => h'
      exact wp_exec hfs hst hc
  | fork mem => rw [Call.run, wp_bind]; exact h.wp_fork
  | exit => exact h.wp_exit

lemma of_booted (h : Booted L s) : Inv L s := by
  have hhandles : handles (fun _ => none) = ⟨0, ∅⟩ := by simp [handles, contents]
  refine ⟨h.image.root, fun _ => none, ⟨?_, fun f _ => (h.file f).2, ?_⟩, ?_⟩
  · rintro (f | p)
    · simp [Tables.slot, (h.file f).2]
    · simp [Tables.slot, h.proc p]
  · intro p _
    rw [h.proc]
  · rw [hhandles]
    refine ⟨_, h.image.sound, ?_⟩
    rintro n ⟨f, ip, hc, -⟩
    cases hc

lemma step {s' : State} {e : Event} (h : Inv L s)
    (hstep : step L.toSuperblock s e = some (.ok s')) : Inv L s' := by
  have hrun : ∀ {c : SysM PUnit}, wp Halt.Ok c (fun _ => Inv L) s →
      (c.run s).map Prod.snd = .ok s' → Inv L s' := by
    intro c hc hrun
    cases hr : c.run s with
    | error e => simp [hr, Except.map] at hrun
    | ok r =>
      obtain rfl : r.2 = s' := by simpa [hr, Except.map] using hrun
      exact hc.returns (a := r.1) hr
  cases e with
  | userinit =>
    rw [Sysfile.step] at hstep
    split at hstep
    · exact hrun h.wp_userinit (Option.some.inj hstep)
    · cases hstep
  | call p c =>
    rw [Sysfile.step] at hstep
    split at hstep
    · next hrunning => exact hrun (h.wp_call hrunning) (Option.some.inj hstep)
    · cases hstep
  | freeproc p =>
    rw [Sysfile.step] at hstep
    split at hstep
    · next hzombie =>
      cases hstep
      obtain ⟨hroot, c, hlink, hhold⟩ := h
      have hcwd : (s.proc p).cwd = none := hlink.idle p (by rw [hzombie]; decide)
      have hnone := hlink.eq_none (x := .inr p) hcwd
      refine of_cwd (r := none) hroot hlink (?_ : Holding L _ _ s.fs) hcwd fun _ => hcwd
      rw [Function.update_eq_self_iff.mpr hnone.symm]
      exact hhold
    · cases hstep

lemma of_reachable (h : (machine L).Reachable s) : Inv L s := by
  refine h.invariant (I := Inv L) (fun _ hs => of_booted hs) ?_
  intro s e s' hinv hnext
  exact hinv.step (Machine.ofStep_next.mp hnext)

lemma slot_inl_iff {ip : Iref} :
     t.slot (.inl f) = some ip ↔ ((t.file f).type = .inode ∨ (t.file f).type = .device) ∧
      (t.file f).ip = ip := by
  rw [Tables.slot]
  split_ifs with htype
  · simp [htype]
  · simp [htype]

/-- The counters count the files and the working directories. -/
lemma ref_eq (h : Inv L s) (ip : Iref) : (s.fs.itable ip).ref =
    (Finset.univ.filter fun f => ((s.file f).type = .inode ∨ (s.file f).type = .device) ∧
      (s.file f).ip = ip).card +
    (Finset.univ.filter fun p => (s.proc p).cwd = some ip).card := by
  classical
  obtain ⟨-, c, hlink, A, hsound, -⟩ := h
  have hiff : ∀ x, (∃ r ∈ c x, r.1 = ip) ↔ s.slot x = some ip := by
    intro x
    rw [← hlink.slot x, Option.map_eq_some_iff]
    exact Iff.rfl
  rw [hsound.refs, Handles.count, handles, countP_contents]
  simp only [hiff, Finset.card_filter, Fintype.sum_sum_type, slot_inl_iff]
  rfl

end Inv

/-- Between the system calls no two entries of the inode table that are in use are for one inode;
each counts the open files and the working directories that refer to it; and none is locked. -/
theorem references_of_reachable {L : Layout} {s : State} (h : (machine L).Reachable s) :
    (∀ ip jp, 0 < (s.fs.itable ip).ref → 0 < (s.fs.itable jp).ref →
      (s.fs.itable ip).inum = (s.fs.itable jp).inum → ip = jp) ∧
    (∀ ip, (s.fs.itable ip).ref =
      (Finset.univ.filter fun f => ((s.file f).type = .inode ∨ (s.file f).type = .device) ∧
        (s.file f).ip = ip).card +
      (Finset.univ.filter fun p => (s.proc p).cwd = some ip).card) ∧
    ∀ ip, (s.fs.itable ip).locked = false := by
  have hinv := Inv.of_reachable h
  obtain ⟨-, c, -, A, hsound, -⟩ := id hinv
  obtain ⟨V, hrep, -⟩ := hsound.volume
  refine ⟨fun ip jp hip hjp hinum => hrep.unique ip jp hip hjp hinum, hinv.ref_eq, fun ip => ?_⟩
  rw [Bool.eq_false_iff]
  exact mt (hsound.held ip).mp (Finset.notMem_empty ip)

/-- A disk with an empty root directory, before the first process. -/
def rootOnly : State where
  file _ := ⟨.none, 0, false, false, 0, 0, 0⟩
  proc _ := ⟨.unused, none, fun _ => none⟩
  initproc := none
  fs := Fs.State.blank.setData (Layout.mkfs.IBLOCK ROOTINO)
    (·.setDinode (ROOTINO % IPB) { Dinode.zero with type := T_DIR })

lemma booted_rootOnly : Booted Layout.mkfs rootOnly where
  image := .of_sound (by decide) (blank_image.sound.alloc (by decide)
    (congrArg Dinode.type (State.blank_dinode ROOTINO (by decide))) T_DIR)
  file _ := ⟨rfl, rfl⟩
  proc _ := rfl
  initproc := rfl

/-- The first process creates the file `a` and makes a directory `d`; its child, which has the
file open too, changes to the directory. -/
def forked : State :=
  ((machine Layout.mkfs).exec rootOnly
    [.userinit, .call 0 (.open (some [97]) (O_CREATE ||| O_RDWR)), .call 0 (.mkdir (some [100])),
      .call 0 (.fork true), .call 1 (.chdir (some [100]))]).getD rootOnly

/-- The root directory is in use by the first process, the file by one entry of the file table, and
the directory by the child. -/
theorem references_forked : (machine Layout.mkfs).Reachable forked ∧
    (∀ ip : Iref, (forked.fs.itable ip).ref = if ip.val < 3 then 1 else 0) ∧
    (forked.file ⟨0, by decide⟩).ref = 2 ∧ ∀ ip, (forked.fs.itable ip).locked = false := by
  have hreach : (machine Layout.mkfs).Reachable forked :=
    .getD_exec booted_rootOnly (by decide +kernel)
  refine ⟨hreach, ?_, by decide +kernel, (references_of_reachable hreach).2.2⟩
  decide +kernel

end Xv6.Sysfile
