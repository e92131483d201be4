import Xv6.Fs.Directory

/-!
# References and locks through the system calls

Every system call gives back the locks it takes, and the references it takes except those that it
returns, on each of its paths. This needs nothing of the directories but that they name existing
inode numbers; calls may end in a panic, other than that of `bfree`.
-/

namespace Xv6.Fs

open Core Coroutine

/-- The calls may fail in every way but one: they do not free a free block. -/
def Halt.Benign (e : Halt) : Prop := e ≠ .panic .freeingFreeBlock

instance : DecidablePred Halt.Benign := fun e => inferInstanceAs (Decidable (e ≠ _))

/-- `F` allows for all of them. -/
class Lenient (F : Halt → Prop) : Prop where
  of_benign : ∀ e : Halt, e.Benign → F e

instance : Lenient Halt.Benign := ⟨fun _ he => he⟩

lemma allowed {F : Halt → Prop} [Lenient F] {e : Halt} (he : e.Benign) : F e :=
  Lenient.of_benign e he

lemma exhaustible {F : Halt → Prop} [Lenient F] : Exhaustible F :=
  ⟨allowed (by decide), allowed (by decide)⟩

/-- The references and locks `H` are out, and the files satisfy `P`. -/
def Holding (L : Layout) (H : Handles) (P : Files → Prop) (s : State) : Prop :=
  ∃ A, Sound L H A s ∧ P A

/-- A call starts in its working directory, and no locks are held. -/
structure Caller (L : Layout) (H : Handles) (cwd : Iref) (n : ℕ) : Prop where
  root : ROOTINO < L.ninodes
  cwd : (cwd, n) ∈ H.refs
  out : ∀ jp, jp ∉ H.held

/-- `P` is kept when a file is deleted to which `H` has no references. -/
def Stable (H : Handles) (P : Files → Prop) : Prop := ∀ A A' n, Dropped H n A A' → P A → P A'

/-- `P` depends on the types of the allocated inodes only. -/
def OfTypes (P : Files → Prop) : Prop :=
  ∀ A A', (∀ n, (A n).type ≠ 0 → (A' n).type = (A n).type) → P A → P A'

/-- The inodes of `T` are allocated, and are no directories. -/
def NoDirs (T : Set ℕ) (A : Files) : Prop := ∀ n ∈ T, (A n).type ≠ 0 ∧ (A n).type ≠ T_DIR

section Predicates

variable {H : Handles} {P : Files → Prop} {T : Set ℕ}

lemma stable_true : Stable H fun _ => True := fun _ _ _ _ _ => trivial

lemma ofTypes_true : OfTypes fun _ => True := fun _ _ _ _ => trivial

/-- Further references do no harm. -/
lemma Stable.of_le {H' : Handles} (h : Stable H P) (hle : ∀ r ∈ H.refs, r ∈ H'.refs) :
    Stable H' P := by
  rintro A A' n (rfl | ⟨hlast, hdelete⟩) hA
  · exact hA
  · exact h A A' n (.inr ⟨fun ip hip => hlast ip (hle _ hip), hdelete⟩) hA

lemma Stable.get (h : Stable H P) (ip : Iref) (n : ℕ) : Stable (H.get ip n) P :=
  h.of_le fun _ hr => Multiset.mem_cons_of_mem hr

/-- Inodes to which there are references are not deleted. -/
lemma NoDirs.stable (hT : ∀ n ∈ T, ∃ ip, (ip, n) ∈ H.refs) : Stable H (NoDirs T) := by
  rintro A A' n (rfl | ⟨hlast, -, rfl⟩) hA m hm
  · exact hA m hm
  obtain ⟨ip, hip⟩ := hT m hm
  have hne : m ≠ n := by
    rintro rfl
    exact hlast ip hip
  rw [Function.update_of_ne hne]
  exact hA m hm

lemma NoDirs.ofTypes : OfTypes (NoDirs T) := by
  intro A A' htypes hA n hn
  rw [htypes n (hA n hn).1]
  exact hA n hn

/-- A change of one file that keeps its type. -/
lemma OfTypes.update (h : OfTypes P) {A : Files} {n : ℕ} {f : File}
    (hf : (A n).type ≠ 0 → f.type = (A n).type) (hA : P A) : P (Function.update A n f) := by
  refine h A _ (fun m hm => ?_) hA
  rcases eq_or_ne m n with rfl | hne
  · rw [Function.update_self]
    exact hf hm
  · rw [Function.update_of_ne hne]

/-- `P`, and under the condition `q` the inode `n` is no directory. -/
def AndFile (P : Files → Prop) (q : Prop) (n : ℕ) (A : Files) : Prop := P A ∧ (q → NoDirs {n} A)

lemma Stable.andFile {q : Prop} {ip : Iref} {n : ℕ} (h : Stable H P) (hr : (ip, n) ∈ H.refs) :
    Stable H (AndFile P q n) := by
  intro A A' m hdrop hA
  refine ⟨h A A' m hdrop hA.1, fun hq => ?_⟩
  refine NoDirs.stable (T := {n}) (fun k hk => ⟨ip, ?_⟩) A A' m hdrop (hA.2 hq)
  rw [Set.mem_singleton_iff.mp hk]
  exact hr

lemma OfTypes.andFile {q : Prop} {n : ℕ} (h : OfTypes P) : OfTypes (AndFile P q n) :=
  fun A A' htypes hA => ⟨h A A' htypes hA.1, fun hq => NoDirs.ofTypes A A' htypes (hA.2 hq)⟩

end Predicates

namespace Holding

variable {L : Layout} {F : Halt → Prop} [Lenient F] {H : Handles} {P : Files → Prop} {s : State}
  {ip dp : Iref} {n d : ℕ}

lemma mono {P' : Files → Prop} (h : Holding L H P s) (hP : ∀ A, P A → P' A) :
    Holding L H P' s := by
  obtain ⟨A, h, hA⟩ := h
  exact ⟨A, h, hP A hA⟩

/-! ### Inodes -/

lemma wp_iget {Q : Iref → State → Prop} (h : Holding L H P s) (hn : n < L.ninodes)
    (hQ : ∀ ip s', Holding L (H.get ip n) P s' → Q ip s') : wp F (iget n) Q s := by
  obtain ⟨A, h, hA⟩ := h
  apply h.wp_iget hn (fun _ => allowed (by decide))
  exact fun ip s' h' _ => hQ ip s' ⟨A, h', hA⟩

omit [Lenient F] in
lemma wp_idup {Q : Iref → State → Prop} (h : Holding L H P s) (hr : (ip, n) ∈ H.refs)
    (hQ : ∀ s', Holding L (H.get ip n) P s' → Q ip s') : wp F (idup ip) Q s := by
  obtain ⟨A, h, hA⟩ := h
  exact h.wp_idup hr fun s' h' => hQ s' ⟨A, h', hA⟩

variable {Q : PUnit → State → Prop} {type major minor : Int16} {name path : CStr} {parent : Bool}

lemma wp_ilock (h : Holding L H P s) (hr : (ip, n) ∈ H.refs)
    (hQ : ∀ s', ip ∉ H.held → Holding L (H.lock ip) P s' → Q ⟨⟩ s') :
    wp F (ilock L.toSuperblock ip) Q s := by
  obtain ⟨A, h, hA⟩ := h
  apply h.wp_ilock hr (fun _ => allowed (by decide))
    (fun _ => allowed (by decide))
  intro s' hfree h'
  exact hQ s' hfree ⟨A, h', hA⟩

omit [Lenient F] in
lemma wp_iunlock (h : Holding L (H.lock ip) P s) (hr : (ip, n) ∈ H.refs) (hfree : ip ∉ H.held)
    (hQ : ∀ s', Holding L H P s' → Q ⟨⟩ s') : wp F (iunlock ip) Q s := by
  obtain ⟨A, h, hA⟩ := h
  apply h.wp_iunlock hr Handles.mem_lock_self
  intro s' h'
  rw [Handles.unlock_lock hfree] at h'
  exact hQ s' ⟨A, h', hA⟩

lemma wp_iput (h : Holding L (H.get ip n) P s) (hst : Stable H P)
    (hheld : ip ∈ H.held → 0 < H.count ip) (hQ : ∀ s', Holding L H P s' → Q ⟨⟩ s') :
    wp F (iput L.toSuperblock ip) Q s := by
  obtain ⟨A, h, hA⟩ := h
  apply h.wp_iput exhaustible hheld
  exact fun s' A' hdrop h' => hQ s' ⟨A', h', hst A A' n hdrop hA⟩

lemma wp_iunlockput (h : Holding L ((H.get ip n).lock ip) P s) (hst : Stable H P)
    (hfree : ip ∉ H.held) (hQ : ∀ s', Holding L H P s' → Q ⟨⟩ s') :
    wp F (iunlockput L.toSuperblock ip) Q s := by
  obtain ⟨A, h, hA⟩ := h
  apply h.wp_iunlockput exhaustible hfree
  exact fun s' A' hdrop h' => hQ s' ⟨A', h', hst A A' n hdrop hA⟩

/-- The new inode has the type that was asked for. -/
lemma wp_ialloc {Q : Iref → State → Prop} (h : Holding L H P s) (hty : OfTypes P)
    (hQ : ∀ n ip s', Holding L (H.get ip n) (fun A => P A ∧ (A n).type = type) s' → Q ip s') :
    wp F (ialloc L.toSuperblock type) Q s := by
  obtain ⟨A, h, hA⟩ := h
  apply h.wp_ialloc exhaustible (allowed (by decide))
    (allowed (by decide))
  intro n ip s' _ hfree h'
  refine hQ n ip s' ⟨_, h', hty.update (fun hne => absurd hfree hne) hA, ?_⟩
  rw [Function.update_self]
  rfl

section Locked

variable (hr : (dp, d) ∈ H.refs) (hheld : dp ∈ H.held)

include hr hheld

/-- What is known of the type of a locked inode. -/
lemma andFile {q : Prop} (h : Holding L H P s) (hq : q → (s.itable dp).type ≠ T_DIR) :
    Holding L H (AndFile P q d) s := by
  obtain ⟨A, h, hA⟩ := h
  refine ⟨A, h, hA, fun hq' m hm => ?_⟩
  obtain ⟨V, hload, hfiles⟩ := h.loaded hr hheld
  rw [Set.mem_singleton_iff.mp hm]
  refine ⟨?_, ?_⟩
  · rw [← hfiles]
    exact hload.allocated.2
  · rw [← (h.fields hr hheld).1]
    exact hq hq'

lemma wp_initInode {nlink : Int16} (h : Holding L H P s)
    (hty : OfTypes P) (hQ : ∀ s', Holding L H P s' → Q ⟨⟩ s') :
    wp F (iupdate L.toSuperblock dp) Q
      (s.setInode dp fun i => { i with major := major, minor := minor, nlink := nlink }) := by
  obtain ⟨A, h, hA⟩ := h
  apply h.wp_initInode hr hheld exhaustible
  exact fun s' h' => hQ s' ⟨_, h', hty.update (fun _ => rfl) hA⟩

lemma wp_setNlink {f : Int16 → Int16} (h : Holding L H P s)
    (hty : OfTypes P) (hQ : ∀ s', Holding L H P s' → Q ⟨⟩ s') :
    wp F (iupdate L.toSuperblock dp) Q
      (s.setInode dp fun i => { i with nlink := f i.nlink }) := by
  obtain ⟨A, h, hA⟩ := h
  apply h.wp_setNlink hr hheld exhaustible
  exact fun s' h' => hQ s' ⟨_, h', hty.update (fun _ => rfl) hA⟩

omit [Lenient F] in
lemma wp_readi {Q : Option (List UInt8) → State → Prop} {dst : ℕ → Bool} {off m : ℕ}
    (h : Holding L H P s) (hm : m < 2 ^ 32) (hQ : ∀ r, Q r s) :
    wp F (readi L.toSuperblock dp dst off m) Q s := by
  obtain ⟨A, h, -⟩ := h
  exact h.wp_readi hr hheld hm fun r _ => hQ r

lemma wp_itrunc (h : Holding L H P s) (hty : OfTypes P) (hQ : ∀ s', Holding L H P s' → Q ⟨⟩ s') :
    wp F (itrunc L.toSuperblock dp) Q s := by
  obtain ⟨A, h, hA⟩ := h
  apply h.wp_itrunc hr hheld exhaustible
  exact fun s' h' => hQ s' ⟨_, h', hty.update (fun _ => rfl) hA⟩

variable {Q : ℤ → State → Prop}

/-- A file that is no directory is written. -/
lemma wp_writei {src : Source} {off m : ℕ} (h : Holding L H P s) (hty : OfTypes P) (hm : m < 2 ^ 32)
    (hdir : (s.itable dp).type ≠ T_DIR) (hQ : ∀ r s', Holding L H P s' → Q r s') :
    wp F (writei L.toSuperblock dp src off m) Q s := by
  obtain ⟨A, h, hA⟩ := h
  rw [(h.fields hr hheld).1] at hdir
  apply h.wp_writei hr hheld exhaustible hm
  · intro tot c _
    exact h.dirs.update fun htype => absurd htype hdir
  · exact fun _ => hQ _ s ⟨A, h, hA⟩
  · exact fun tot c s' _ _ _ h' => hQ tot s' ⟨_, h', hty.update (fun _ => rfl) hA⟩

/-! ### Directories -/

lemma wp_dirlookup {Q : Option (Iref × ℕ) → State → Prop} (h : Holding L H P s) (hnone : Q none s)
    (hsome : ∀ ip n k s', Holding L (H.get ip n) P s' → Q (some (ip, 16 * k)) s') :
    wp F (dirlookup L.toSuperblock dp name) Q s := by
  obtain ⟨A, h, hA⟩ := h
  apply h.wp_dirlookup hr hheld (fun _ => allowed (by decide))
    (fun _ => allowed (by decide))
    (fun _ => allowed (by decide))
  · exact fun _ _ => hnone
  · exact fun ip j s' _ _ h' _ => hsome ip _ j s' ⟨A, h', hA⟩

lemma wp_dirlink {inum : ℕ} (h : Holding L H P s) (hty : OfTypes P) (hinum : inum < L.ninodes)
    (hQ : ∀ r s', Holding L H P s' → Q r s') :
    wp Halt.Benign (dirlink L.toSuperblock dp name inum) Q s := by
  obtain ⟨A, h, hA⟩ := h
  apply h.wp_dirlink hr hheld exhaustible ((Nat.mod_le _ _).trans_lt hinum)
    (fun _ => by decide) (fun _ => by decide) (fun _ => by decide) (fun _ => by decide)
    (fun _ => by decide)
  · exact fun j s' _ _ h' => hQ (-1) s' ⟨A, h', hA⟩
  · exact fun k s' _ _ _ _ h' => hQ 0 s' ⟨_, h', hty.update (fun _ => rfl) hA⟩

/-- An entry is cleared. -/
lemma wp_clearDirent {k : ℕ} (h : Holding L H P s) (hty : OfTypes P)
    (hQ : ∀ r s', Holding L H P s' → Q r s') :
    wp F (writei L.toSuperblock dp (.kernel []) (16 * k) Dirent.size) Q s := by
  obtain ⟨A, h, hA⟩ := h
  apply h.wp_writeDirent hr hheld exhaustible
  · exact L.ninodes_pos
  · exact fun _ => hQ (-1) s ⟨A, h, hA⟩
  · exact fun s' _ h' => hQ 16 s' ⟨_, h', hty.update (fun _ => rfl) hA⟩

lemma wp_isFullDir {Q : Bool → State → Prop} (h : Holding L H P s) (hQ : ∀ r, Q r s) :
    wp F (isFullDir L.toSuperblock dp) Q s := by
  obtain ⟨A, h, -⟩ := h
  simp only [isFullDir, wp_bind, wp_get]
  apply wp_ite
  · intro _
    rw [wp_bind]
    apply h.wp_isdirempty hr hheld (fun _ => allowed (by decide))
    · exact fun _ => hQ _
    · exact fun _ _ _ _ => hQ _
  · exact fun _ => hQ _

end Locked

lemma inum_lt (h : Holding L H P s) (ip : Iref) : (s.itable ip).inum < L.ninodes := by
  obtain ⟨A, h, -⟩ := h
  obtain ⟨V, hrep, -⟩ := h.volume
  exact hrep.inum_lt ip

/-! ### Paths -/

lemma wp_namexEnd {Q : Option (Iref × CStr) → State → Prop} (h : Holding L (H.get ip n) P s)
    (hst : Stable H P) (hheld : ip ∈ H.held → 0 < H.count ip)
    (hnone : ∀ s', Holding L H P s' → Q none s')
    (hsome : ∀ ip n name s', Holding L (H.get ip n) P s' → Q (some (ip, name)) s') :
    wp F (namexEnd L.toSuperblock parent ip name) Q s := by
  rw [namexEnd]
  apply wp_ite
  · intro _
    rw [wp_bind]
    exact h.wp_iput hst hheld hnone
  · intro _
    exact hsome ip n name s h

lemma wp_namexFrom {Q : Option (Iref × CStr) → State → Prop} {fuel : ℕ}
    (h : Holding L (H.get ip n) P s) (hst : Stable H P) (hout : ∀ jp, jp ∉ H.held)
    (hnone : ∀ s', Holding L H P s' → Q none s')
    (hsome : ∀ ip n name s', Holding L (H.get ip n) P s' → Q (some (ip, name)) s') :
    wp F (namexFrom L.toSuperblock parent fuel ip path name) Q s := by
  induction fuel generalizing ip n path name s with
  | zero => exact h.wp_namexEnd hst (fun hip => absurd hip (hout ip)) hnone hsome
  | succ fuel ih =>
    rw [namexFrom]
    split
    · exact h.wp_namexEnd hst (fun hip => absurd hip (hout ip)) hnone hsome
    have hr : (ip, n) ∈ (H.get ip n).refs := Handles.mem_get_self
    have hlocked : ip ∈ ((H.get ip n).lock ip).held := Handles.mem_lock_self
    rw [wp_bind]
    apply h.wp_ilock hr
    intro s₁ _ h₁
    simp only [wp_bind, wp_get]
    apply wp_ite
    · intro _
      rw [wp_bind]
      exact h₁.wp_iunlockput hst (hout ip) hnone
    intro _
    apply wp_ite
    · intro _
      rw [wp_bind]
      apply h₁.wp_iunlock hr (hout ip)
      exact fun s₂ h₂ => hsome ip n _ s₂ h₂
    intro _
    rw [wp_bind]
    apply h₁.wp_dirlookup (H := (H.get ip n).lock ip) hr hlocked
    · rw [wp_bind]
      exact h₁.wp_iunlockput hst (hout ip) hnone
    · intro next m _ s₂ h₂
      rw [wp_bind]
      -- the new reference is kept while the directory is put
      rw [Handles.lock_get_comm] at h₂
      apply h₂.wp_iunlockput (hst.get next m) (hout ip)
      intro s₃ h₃
      exact ih h₃

lemma wp_namex {Q : Option (Iref × CStr) → State → Prop} {cwd : Iref} (h : Holding L H P s)
    (hst : Stable H P) (hc : Caller L H cwd n)
    (hnone : ∀ s', Holding L H P s' → Q none s')
    (hsome : ∀ ip n name s', Holding L (H.get ip n) P s' → Q (some (ip, name)) s') :
    wp F (namex L.toSuperblock cwd path parent) Q s := by
  rw [namex]
  apply wp_ite
  · intro _
    rw [wp_bind]
    apply h.wp_iget hc.root
    exact fun ip s' h' => h'.wp_namexFrom hst hc.out hnone hsome
  · intro _
    rw [wp_bind]
    apply h.wp_idup hc.cwd
    exact fun s' h' => h'.wp_namexFrom hst hc.out hnone hsome

lemma wp_namei {Q : Option Iref → State → Prop} {cwd : Iref} (h : Holding L H P s)
    (hst : Stable H P) (hc : Caller L H cwd n)
    (hnone : ∀ s', Holding L H P s' → Q none s')
    (hsome : ∀ ip n s', Holding L (H.get ip n) P s' → Q (some ip) s') :
    wp F (namei L.toSuperblock cwd path) Q s := by
  rw [namei, wp_bind]
  exact h.wp_namex hst hc hnone fun ip n _ => hsome ip n

lemma wp_nameiparent {Q : Option (Iref × CStr) → State → Prop} {cwd : Iref} (h : Holding L H P s)
    (hst : Stable H P) (hc : Caller L H cwd n)
    (hnone : ∀ s', Holding L H P s' → Q none s')
    (hsome : ∀ ip n name s', Holding L (H.get ip n) P s' → Q (some (ip, name)) s') :
    wp F (nameiparent L.toSuperblock cwd path) Q s :=
  h.wp_namex hst hc hnone hsome

/-! ### System calls -/

section Calls

variable {cwd : Iref}

lemma wp_createDots (h : Holding L H P s) (hty : OfTypes P) (hr : (ip, n) ∈ H.refs)
    (hip : ip ∈ H.held) (hd : (dp, d) ∈ H.refs) (hdp : dp ∈ H.held)
    (hQ : ∀ s', Holding L H P s' → Q ⟨⟩ s') :
    wp Halt.Benign (createDots L.toSuperblock ip dp) Q s := by
  simp only [createDots, wp_bind, wp_setInode]
  apply h.wp_setNlink hd hdp (f := (· + 1)) hty
  intro s₁ h₁
  simp only [wp_bind, wp_get]
  apply h₁.wp_dirlink hr hip hty (h₁.inum_lt ip)
  intro r s₂ h₂
  apply wp_ite
  · exact fun _ => (by decide : Halt.Benign _)
  intro _
  simp only [wp_bind, wp_get]
  apply h₂.wp_dirlink hr hip hty (h₂.inum_lt dp)
  intro r' s₃ h₃
  apply wp_ite
  · exact fun _ => (by decide : Halt.Benign _)
  · exact fun _ => hQ s₃ h₃

/-- The new inode is entered, and the directory put. -/
lemma wp_createLink {Q : Option Iref → State → Prop}
    (h : Holding L (((H.get dp d).lock dp).get ip n |>.lock ip) P s) (hst : Stable (H.get ip n) P)
    (hty : OfTypes P) (hdp : dp ∉ H.held) (hne : dp ≠ ip)
    (hQ : ∀ s', Holding L ((H.get ip n).lock ip) P s' → Q (some ip) s') :
    wp Halt.Benign (createLink L.toSuperblock dp ip name) Q s := by
  rw [Handles.lock_lock_comm] at h
  have hr : (dp, d) ∈ ((((H.get ip n).lock ip).get dp d).lock dp).refs :=
    Handles.mem_get_self
  simp only [createLink, wp_bind, wp_get]
  apply h.wp_dirlink hr Handles.mem_lock_self hty (h.inum_lt ip)
  intro r s₁ h₁
  apply wp_ite
  · exact fun _ => (by decide : Halt.Benign _)
  intro _
  rw [wp_bind]
  apply h₁.wp_iunlockput hst
  · intro hmem
    rcases Handles.mem_lock_held.mp hmem with heq | hmem
    · exact hne heq
    · exact hdp hmem
  · exact hQ

/-- The inode that `create` returns is locked. If a file was asked for it is no directory. -/
lemma wp_create {Q : Option Iref → State → Prop} (h : Holding L H P s) (hst : Stable H P)
    (hty : OfTypes P) (hc : Caller L H cwd n) (hnone : ∀ s', Holding L H P s' → Q none s')
    (hsome : ∀ ip n s', Holding L ((H.get ip n).lock ip) (AndFile P (type = T_FILE) n) s' →
      Q (some ip) s') :
    wp Halt.Benign (create L.toSuperblock cwd path type major minor) Q s := by
  rw [create, wp_bind]
  apply h.wp_nameiparent hst hc hnone
  intro dp d name s₁ h₁
  have hd : (dp, d) ∈ (H.get dp d).refs := Handles.mem_get_self
  have hdp : dp ∈ ((H.get dp d).lock dp).held := Handles.mem_lock_self
  simp only [wp_bind]
  apply h₁.wp_ilock hd
  intro s₂ _ h₂
  rw [wp_bind]
  apply h₂.wp_dirlookup (H := (H.get dp d).lock dp) hd hdp
  · rw [wp_bind]
    apply h₂.wp_ialloc hty
    intro m ip s₃ h₃
    rw [wp_bind]
    have hm : (ip, m) ∈ (((H.get dp d).lock dp).get ip m).refs :=
      Handles.mem_get_self
    have hd' : (dp, d) ∈ (((H.get dp d).lock dp).get ip m).refs := Handles.mem_get.mpr (.inr hd)
    have hst' : Stable (H.get ip m) (AndFile P (type = T_FILE) m) :=
      (hst.get ip m).andFile Handles.mem_get_self
    have hty' : OfTypes (AndFile P (type = T_FILE) m) := hty.andFile
    -- the type is that of the new inode
    replace h₃ := h₃.mono fun A hA => show AndFile P (type = T_FILE) m A from ⟨hA.1, by
      rintro rfl k hk
      rw [Set.mem_singleton_iff.mp hk, hA.2]
      decide⟩
    apply h₃.wp_ilock hm
    intro s₄ hip h₄
    have hne : dp ≠ ip := by
      rintro rfl
      exact hip hdp
    have hip' : ip ∈ ((((H.get dp d).lock dp).get ip m).lock ip).held :=
      Handles.mem_lock_self
    simp only [wp_bind, wp_setInode]
    apply h₄.wp_initInode (H := (((H.get dp d).lock dp).get ip m).lock ip) hm hip' hty'
    intro s₅ h₅
    apply wp_ite
    · intro _
      rw [wp_bind]
      apply h₅.wp_createDots (H := (((H.get dp d).lock dp).get ip m).lock ip) hty' hm hip' hd'
        (Handles.mem_lock_held.mpr (.inr hdp))
      intro s₆ h₆
      exact h₆.wp_createLink hst' hty' (hc.out dp) hne (hsome ip m)
    · intro _
      exact h₅.wp_createLink hst' hty' (hc.out dp) hne (hsome ip m)
  · intro ip m _ s₃ h₃
    rw [Handles.lock_get_comm] at h₃
    rw [wp_bind]
    apply h₃.wp_iunlockput (hst.get ip m) (hc.out dp)
    intro s₄ h₄
    rw [wp_bind]
    have hm : (ip, m) ∈ (H.get ip m).refs := Handles.mem_get_self
    apply h₄.wp_ilock hm
    intro s₅ _ h₅
    simp only [wp_bind, wp_get]
    apply wp_ite
    · rintro ⟨-, hfound⟩
      apply hsome ip m s₅
      apply h₅.andFile (H := (H.get ip m).lock ip) hm Handles.mem_lock_self
      rintro -
      rcases hfound with hfound | hfound <;> rw [hfound] <;> decide
    · intro _
      rw [wp_bind]
      exact h₅.wp_iunlockput hst (hc.out ip) hnone

/-- A link count that was raised too early is taken back. -/
lemma wp_linkBad {Q : ℤ → State → Prop} (h : Holding L (H.get ip n) P s) (hst : Stable H P)
    (hty : OfTypes P) (hout : ∀ jp, jp ∉ H.held) (hQ : ∀ r s', Holding L H P s' → Q r s') :
    wp F (linkBad L.toSuperblock ip) Q s := by
  have hr : (ip, n) ∈ (H.get ip n).refs := Handles.mem_get_self
  rw [linkBad, wp_bind]
  apply h.wp_ilock hr
  intro s₁ _ h₁
  simp only [wp_bind, wp_setInode]
  apply h₁.wp_setNlink (H := (H.get ip n).lock ip) (f := (· - 1)) hr
    Handles.mem_lock_self hty
  intro s₂ h₂
  rw [wp_bind]
  exact h₂.wp_iunlockput hst (hout ip) (hQ (-1))

lemma wp_sysLink {Q : ℤ → State → Prop} {old new : CStr} (h : Holding L H P s) (hst : Stable H P)
    (hty : OfTypes P) (hc : Caller L H cwd n) (hQ : ∀ r s', Holding L H P s' → Q r s') :
    wp Halt.Benign (sysLink L.toSuperblock cwd old new) Q s := by
  rw [sysLink, wp_bind]
  apply h.wp_namei hst hc (hQ (-1))
  intro ip m s₁ h₁
  have hr : (ip, m) ∈ (H.get ip m).refs := Handles.mem_get_self
  rw [wp_bind]
  apply h₁.wp_ilock hr
  intro s₂ _ h₂
  simp only [wp_bind, wp_get]
  apply wp_ite
  · intro _
    rw [wp_bind]
    exact h₂.wp_iunlockput hst (hc.out ip) (hQ (-1))
  intro _
  simp only [wp_bind, wp_setInode]
  apply h₂.wp_setNlink (H := (H.get ip m).lock ip) (f := (· + 1)) hr
    Handles.mem_lock_self hty
  intro s₃ h₃
  rw [wp_bind]
  apply h₃.wp_iunlock hr (hc.out ip)
  intro s₄ h₄
  rw [wp_bind]
  apply h₄.wp_nameiparent (hst.get ip m)
    ⟨hc.root, Handles.mem_get.mpr (.inr hc.cwd), hc.out⟩
  · exact fun s₅ h₅ => h₅.wp_linkBad hst hty hc.out hQ
  intro dp d name s₅ h₅
  have hd : (dp, d) ∈ ((H.get ip m).get dp d).refs := Handles.mem_get_self
  rw [wp_bind]
  apply h₅.wp_ilock hd
  intro s₆ _ h₆
  simp only [wp_bind, wp_get]
  apply h₆.wp_dirlink (H := ((H.get ip m).get dp d).lock dp) hd
    Handles.mem_lock_self hty (h₆.inum_lt ip)
  intro r s₇ h₇
  apply wp_ite
  · intro _
    rw [wp_bind]
    apply h₇.wp_iunlockput (H := H.get ip m) (hst.get ip m) (hc.out dp)
    exact fun s₈ h₈ => h₈.wp_linkBad hst hty hc.out hQ
  · intro _
    rw [wp_bind]
    apply h₇.wp_iunlockput (H := H.get ip m) (hst.get ip m) (hc.out dp)
    intro s₈ h₈
    rw [wp_bind]
    exact h₈.wp_iput hst (fun hip => absurd hip (hc.out ip)) (hQ 0)

lemma wp_unlinkBad {Q : ℤ → State → Prop} (h : Holding L ((H.get dp d).lock dp) P s)
    (hst : Stable H P) (hdp : dp ∉ H.held) (hQ : ∀ r s', Holding L H P s' → Q r s') :
    wp F (unlinkBad L.toSuperblock dp) Q s := by
  rw [unlinkBad, wp_bind]
  exact h.wp_iunlockput hst hdp (hQ (-1))

lemma wp_unlinkParent (h : Holding L H P s) (hty : OfTypes P) (hd : (dp, d) ∈ H.refs)
    (hdp : dp ∈ H.held) (hQ : ∀ s', Holding L H P s' → Q ⟨⟩ s') :
    wp F (unlinkParent L.toSuperblock dp ip) Q s := by
  simp only [unlinkParent, wp_bind, wp_get]
  apply wp_ite
  · intro _
    simp only [wp_bind, wp_setInode]
    exact h.wp_setNlink hd hdp (f := (· - 1)) hty hQ
  · exact fun _ => hQ s h

lemma wp_unlinkEntry {Q : ℤ → State → Prop} {k : ℕ}
    (h : Holding L ((((H.get dp d).lock dp).get ip n).lock ip) P s) (hst : Stable H P)
    (hty : OfTypes P) (hdp : dp ∉ H.held) (hip : ip ∉ ((H.get dp d).lock dp).held)
    (hQ : ∀ r s', Holding L H P s' → Q r s') :
    wp F (unlinkEntry L.toSuperblock dp ip (16 * k)) Q s := by
  have hip' : ip ∉ H.held := fun hmem => hip (Handles.mem_lock_held.mpr (.inr hmem))
  rw [Handles.lock_lock_comm] at h
  have hd : (dp, d) ∈ ((((H.get ip n).lock ip).get dp d).lock dp).refs :=
    Handles.mem_get_self
  have hlocked : dp ∈ ((((H.get ip n).lock ip).get dp d).lock dp).held :=
    Handles.mem_lock_self
  rw [unlinkEntry, wp_bind]
  apply h.wp_clearDirent hd hlocked hty
  intro r s₁ h₁
  apply wp_ite
  · exact fun _ => allowed (F := F) (by decide)
  intro _
  rw [wp_bind]
  apply h₁.wp_unlinkParent hty hd hlocked
  intro s₂ h₂
  rw [wp_bind]
  apply h₂.wp_iunlockput (hst.get ip n)
  · intro hmem
    rcases Handles.mem_lock_held.mp hmem with rfl | hmem
    · exact hip Handles.mem_lock_self
    · exact hdp hmem
  intro s₃ h₃
  simp only [wp_bind, wp_setInode]
  apply h₃.wp_setNlink (H := (H.get ip n).lock ip) (f := (· - 1))
    Handles.mem_get_self Handles.mem_lock_self hty
  intro s₄ h₄
  rw [wp_bind]
  exact h₄.wp_iunlockput hst hip' (hQ 0)

lemma wp_sysUnlink {Q : ℤ → State → Prop} (h : Holding L H P s) (hst : Stable H P) (hty : OfTypes P)
    (hc : Caller L H cwd n)
    (hQ : ∀ r s', Holding L H P s' → Q r s') : wp F (sysUnlink L.toSuperblock cwd path) Q s := by
  rw [sysUnlink, wp_bind]
  apply h.wp_nameiparent hst hc (hQ (-1))
  intro dp d name s₁ h₁
  have hd : (dp, d) ∈ (H.get dp d).refs := Handles.mem_get_self
  have hdp : dp ∈ ((H.get dp d).lock dp).held := Handles.mem_lock_self
  rw [wp_bind]
  apply h₁.wp_ilock hd
  intro s₂ _ h₂
  apply wp_ite
  · exact fun _ => h₂.wp_unlinkBad hst (hc.out dp) hQ
  intro _
  rw [wp_bind]
  apply h₂.wp_dirlookup (H := (H.get dp d).lock dp) hd hdp
  · exact h₂.wp_unlinkBad hst (hc.out dp) hQ
  intro ip m k s₃ h₃
  simp only [wp_bind, wp_pause]
  apply h₃.wp_ilock Handles.mem_get_self
  intro s₄ hip h₄
  simp only [wp_bind, wp_get]
  apply wp_ite
  · exact fun _ => allowed (F := F) (by decide)
  intro _
  rw [wp_bind]
  apply h₄.wp_isFullDir (H := (((H.get dp d).lock dp).get ip m).lock ip)
    Handles.mem_get_self Handles.mem_lock_self
  intro full
  apply wp_ite
  · intro _
    rw [wp_bind]
    apply h₄.wp_iunlockput (hst.get dp d) hip
    exact fun s₅ h₅ => h₅.wp_unlinkBad hst (hc.out dp) hQ
  · exact fun _ => h₄.wp_unlinkEntry hst hty (hc.out dp) hip hQ

/-- The inode to open is locked. Directories are opened for reading only. -/
lemma wp_openInode {Q : Option Iref → State → Prop} {omode : ℕ}
    (h : Holding L H P s) (hst : Stable H P) (hty : OfTypes P) (hc : Caller L H cwd n)
    (hnone : ∀ s', Holding L H P s' → Q none s')
    (hsome : ∀ ip n s', Holding L ((H.get ip n).lock ip) (AndFile P (omode ≠ O_RDONLY) n) s' →
      Q (some ip) s') :
    wp Halt.Benign (openInode L.toSuperblock cwd path omode) Q s := by
  rw [openInode]
  apply wp_ite
  · intro _
    apply h.wp_create hst hty hc hnone
    exact fun ip m s' h' => hsome ip m s' (h'.mono fun A hA => ⟨hA.1, fun _ => hA.2 rfl⟩)
  intro _
  rw [wp_bind]
  apply h.wp_namei hst hc
  · exact hnone
  intro ip m s₁ h₁
  have hm : (ip, m) ∈ (H.get ip m).refs := Handles.mem_get_self
  rw [wp_bind]
  apply h₁.wp_ilock hm
  intro s₂ _ h₂
  simp only [wp_bind, wp_get]
  apply wp_ite
  · intro _
    rw [wp_bind]
    exact h₂.wp_iunlockput hst (hc.out ip) hnone
  · intro hopen
    apply hsome ip m s₂
    apply h₂.andFile (H := (H.get ip m).lock ip) hm Handles.mem_lock_self
    exact fun hmode htype => hopen ⟨htype, hmode⟩

/-- A file that was opened keeps the reference to its inode. -/
lemma wp_sysOpen {Q : Option Iref → State → Prop} {omode : ℕ} {file : Bool} (h : Holding L H P s)
    (hst : Stable H P) (hty : OfTypes P) (hc : Caller L H cwd n)
    (hnone : ∀ s', Holding L H P s' → Q none s')
    (hsome : ∀ ip n s', file = true → Holding L (H.get ip n) P s' → Q (some ip) s') :
    wp Halt.Benign (sysOpen L.toSuperblock cwd path omode file) Q s := by
  rw [sysOpen, wp_bind]
  apply h.wp_openInode hst hty hc
  · exact hnone
  intro ip m s₁ h₁
  replace h₁ := h₁.mono fun A hA => hA.1
  have hr : (ip, m) ∈ (H.get ip m).refs := Handles.mem_get_self
  have hlocked : ip ∈ ((H.get ip m).lock ip).held := Handles.mem_lock_self
  simp only [wp_bind, wp_get]
  apply wp_ite
  · intro _
    rw [wp_bind]
    exact h₁.wp_iunlockput hst (hc.out ip) hnone
  intro _
  apply wp_ite
  · intro _
    rw [wp_bind]
    exact h₁.wp_iunlockput hst (hc.out ip) hnone
  intro hfile
  have hfile := Bool.eq_true_of_not_eq_false hfile
  apply wp_ite
  · intro _
    rw [wp_bind]
    apply h₁.wp_itrunc (H := (H.get ip m).lock ip) hr hlocked hty
    intro s₂ h₂
    rw [wp_bind]
    exact h₂.wp_iunlock hr (hc.out ip) fun s₃ => hsome ip m s₃ hfile
  · intro _
    rw [wp_bind]
    exact h₁.wp_iunlock hr (hc.out ip) fun s₂ => hsome ip m s₂ hfile

lemma wp_sysMake {Q : ℤ → State → Prop} (h : Holding L H P s) (hst : Stable H P) (hty : OfTypes P)
    (hc : Caller L H cwd n)
    (hQ : ∀ r s', Holding L H P s' → Q r s') :
    wp Halt.Benign (sysMake L.toSuperblock cwd path type major minor) Q s := by
  rw [sysMake, wp_bind]
  apply h.wp_create hst hty hc (hQ (-1))
  intro ip m s₁ h₁
  rw [wp_bind]
  exact (h₁.mono fun A hA => hA.1).wp_iunlockput hst (hc.out ip) (hQ 0)

/-- The reference to the old working directory is exchanged for one to the new one. -/
lemma wp_sysChdir {Q : Option Iref → State → Prop} (h : Holding L (H.get cwd n) P s)
    (hst : Stable H P) (hroot : ROOTINO < L.ninodes) (hout : ∀ jp, jp ∉ H.held)
    (hnone : ∀ s', Holding L (H.get cwd n) P s' → Q none s')
    (hsome : ∀ ip m s', Holding L (H.get ip m) P s' → Q (some ip) s') :
    wp F (sysChdir L.toSuperblock cwd path) Q s := by
  rw [sysChdir, wp_bind]
  apply h.wp_namei (hst.get cwd n) ⟨hroot, Handles.mem_get_self, hout⟩
  · exact hnone
  intro ip m s₁ h₁
  have hr : (ip, m) ∈ ((H.get cwd n).get ip m).refs := Handles.mem_get_self
  rw [wp_bind]
  apply h₁.wp_ilock hr
  intro s₂ _ h₂
  simp only [wp_bind, wp_get]
  apply wp_ite
  · intro _
    rw [wp_bind]
    exact h₂.wp_iunlockput (H := H.get cwd n) (hst.get cwd n) (hout ip) hnone
  intro _
  rw [wp_bind]
  apply h₂.wp_iunlock hr (hout ip)
  intro s₃ h₃
  rw [Handles.get_comm] at h₃
  rw [wp_bind]
  exact h₃.wp_iput (hst.get ip m) (fun hip => absurd hip (hout cwd)) (hsome ip m)

end Calls

end Holding

end Xv6.Fs
