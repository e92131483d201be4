import Xv6.Core.Machine
import Xv6.Fs.Calls

/-!
# Ownership of blocks

Between the operations, a block is marked in the free map exactly when it is a metadata block or
one file has it in one place.
-/

namespace Xv6.Fs

open Core Coroutine

/-- The references and locks `H` are out, whatever the files. -/
def Kept (L : Layout) (H : Handles) (s : State) : Prop := Holding L H (fun _ => True) s

/-- No operation is in progress: no lock is held. -/
def Idle (L : Layout) (s : State) : Prop := ∃ H : Handles, H.held = ∅ ∧ Kept L H s

variable {L : Layout} {H : Handles} {A : Files} {s s' : State} {ip : Iref} {n : ℕ}

lemma Image.idle (h : Image L s) : Idle L s := ⟨⟨0, ∅⟩, rfl, _, h.sound, trivial⟩

lemma Idle.wellFormed (h : Idle L s) : s.WellFormed L := by
  obtain ⟨H, -, A, h, -⟩ := h
  obtain ⟨V, hrep, hok, -⟩ := h.volume
  exact .of_rep hrep hok

/-! ### Every operation -/

/-- The log does not matter. -/
lemma Sound.setLog (h : Sound L H A s) (lh : List ℕ) (outstanding : ℕ) :
    Sound L H A { s with lh := lh, outstanding := outstanding } := by
  obtain ⟨V, hrep, hok, hfiles⟩ := h.volume
  exact ⟨⟨V, ⟨hrep.used, hrep.data, hrep.inode, hrep.live, hrep.type_ne, hrep.inum_lt, hrep.unique,
    hrep.locked⟩, hok, hfiles⟩, h.dirs, h.refs, h.inum, h.held⟩

variable {Q : PUnit → State → Prop}

lemma Holding.wp_beginOp {P : Files → Prop} (h : Holding L H P s)
    (hQ : ∀ s', Holding L H P s' → Q ⟨⟩ s') : wp Halt.Benign beginOp Q s := by
  obtain ⟨A, h, hA⟩ := h
  simp only [beginOp, wp_bind, wp_pause, wp_get]
  apply wp_ite
  · exact fun _ => (by decide : Halt.Benign _)
  · exact fun _ => hQ _ ⟨A, h.setLog _ _, hA⟩

lemma Holding.wp_endOp {P : Files → Prop} (h : Holding L H P s)
    (hQ : ∀ s', Holding L H P s' → Q ⟨⟩ s') : wp Halt.Benign endOp Q s := by
  obtain ⟨A, h, hA⟩ := h
  exact hQ _ ⟨A, h.setLog _ _, hA⟩

/-- The type of an inode to which there is a reference. -/
lemma Sound.typeOf (h : Sound L H A s) (hr : (ip, n) ∈ H.refs) :
    s.typeOf L.toSuperblock ip = (A n).type := by
  obtain ⟨V, hrep, -, rfl⟩ := h.volume
  have hpos := h.ref_pos hr
  rw [State.typeOf]
  split
  · next hvalid =>
    rw [hrep.live ip ⟨hpos, hvalid⟩, h.inum hr]
    rfl
  · rw [h.inum hr, hrep.inode n (h.inum_lt hr) (by simp)]
    rfl

/-- Code that runs with an inode locked. -/
lemma Kept.wp_locking {α : Type} {c : FsM α} (h : Kept L H s)
    (hc : ∀ A n s₁, (ip, n) ∈ H.refs → Sound L H A s → Sound L (H.lock ip) A s₁ →
      wp Halt.Benign c (fun _ => Kept L (H.lock ip)) s₁)
    (hQ : ∀ s', Kept L H s' → Q ⟨⟩ s') : wp Halt.Benign (locking L.toSuperblock ip c) Q s := by
  obtain ⟨A, h, -⟩ := h
  rw [locking, wp_bind]
  by_cases hpos : 0 < H.count ip
  · obtain ⟨n, hr⟩ := Handles.exists_mem_of_count_pos hpos
    apply h.wp_ilock hr (fun _ => by decide) (fun _ => by decide)
    intro s₁ hfree h₁
    rw [wp_bind]
    apply (hc A n s₁ hr h h₁).mono
    intro _ s₂ h₂
    exact Holding.wp_iunlock h₂ hr hfree hQ
  · -- without a reference, `ilock` panics
    have href : (s.itable ip).ref < 1 := by
      rw [h.refs]
      omega
    simp only [ilock, wp_bind, wp_get, if_pos href, wp_panic]
    decide

/-- Every operation leaves the file system idle, or ends in a panic other than that of `bfree`. -/
lemma Kept.wp_body {op : Op} (h : Kept L H s) (hroot : ROOTINO < L.ninodes) (hheld : H.held = ∅)
    (hallow : op.Allowed L.toSuperblock s) :
    wp Halt.Benign (op.body L.toSuperblock) (fun _ => Idle L) s := by
  have hout : ∀ jp, jp ∉ H.held := by simp [hheld]
  have hidle : ∀ s', Kept L H s' → Idle L s' := fun s' h' => ⟨H, hheld, h'⟩
  have hget : ∀ ip n s', Kept L (H.get ip n) s' → Idle L s' := 
    fun ip n s' h' => ⟨H.get ip n, hheld, h'⟩
  have hrefs : ∀ ip ∈ op.held, ∃ n, (ip, n) ∈ H.refs := by
    intro ip hip
    obtain ⟨A, h, -⟩ := h
    apply Handles.exists_mem_of_count_pos
    rw [← h.refs]
    exact hallow.1 ip hip
  -- the references but one
  have hput : ∀ ip ∈ op.held, ∃ (H' : Handles) (n : ℕ), H'.held = ∅ ∧ H = H'.get ip n := by
    intro ip hip
    obtain ⟨n, hr⟩ := hrefs ip hip
    obtain ⟨refs, hcons⟩ := Multiset.exists_cons_of_mem hr
    exact ⟨⟨refs, H.held⟩, n, hheld, by rw [Handles.get, ← hcons]⟩
  have hmem : ∀ ip, ip ∈ (H.lock ip).held := fun ip => Handles.mem_lock_self
  cases op with
  | ialloc type =>
    rw [Op.body, wp_bind]
    exact h.wp_ialloc ofTypes_true fun n ip s' h' => hget ip n s' (h'.mono fun _ _ => trivial)
  | readi ip dst off n =>
    refine h.wp_locking ?_ hidle
    intro A m s₁ hr _ h₁
    exact Holding.wp_readi (H := H.lock ip) (P := fun _ => True) hr (hmem ip) ⟨A, h₁, trivial⟩
      n.toNat_lt fun _ => ⟨A, h₁, trivial⟩
  | writei ip src off n =>
    refine h.wp_locking ?_ hidle
    intro A m s₁ hr h h₁
    have htype : (s₁.itable ip).type ≠ T_DIR := by
      rw [(h₁.fields hr (hmem ip)).1, ← h.typeOf hr]
      exact hallow.2 ip rfl
    exact Holding.wp_writei (H := H.lock ip) hr (hmem ip) ⟨A, h₁, trivial⟩ ofTypes_true n.toNat_lt
      htype fun _ _ h' => h'
  | itrunc ip =>
    refine h.wp_locking ?_ hidle
    intro A m s₁ hr _ h₁
    exact Holding.wp_itrunc (H := H.lock ip) hr (hmem ip) ⟨A, h₁, trivial⟩ ofTypes_true
      fun _ h' => h'
  | idup ip =>
    obtain ⟨n, hr⟩ := hrefs ip rfl
    rw [Op.body, wp_bind]
    exact h.wp_idup hr (hget ip n)
  | iput ip =>
    obtain ⟨H', n, hheld', rfl⟩ := hput ip rfl
    exact h.wp_iput stable_true (by simp [hheld']) fun s' h' => ⟨H', hheld', h'⟩
  | dirlink dp name ip =>
    simp only [Op.body, wp_bind, wp_get]
    refine h.wp_locking ?_ hidle
    intro A m s₁ hr _ h₁
    exact Holding.wp_dirlink (H := H.lock dp) hr (hmem dp) ⟨A, h₁, trivial⟩ ofTypes_true
      (h.inum_lt ip) fun _ _ h' => h'
  | create cwd path type major minor =>
    obtain ⟨n, hr⟩ := hrefs cwd rfl
    rw [Op.body, wp_bind]
    apply h.wp_create stable_true ofTypes_true ⟨hroot, hr, hout⟩
    · exact hidle
    · intro ip m s' h'
      exact (h'.mono fun _ _ => trivial).wp_iunlock Handles.mem_get_self
        (by simp [hheld]) (hget ip m)
  | link cwd old new =>
    obtain ⟨n, hr⟩ := hrefs cwd rfl
    rw [Op.body, wp_bind]
    exact h.wp_sysLink stable_true ofTypes_true ⟨hroot, hr, hout⟩ fun _ => hidle
  | unlink cwd path =>
    obtain ⟨n, hr⟩ := hrefs cwd rfl
    rw [Op.body, wp_bind]
    exact h.wp_sysUnlink stable_true ofTypes_true ⟨hroot, hr, hout⟩ fun _ => hidle
  | «open» cwd path omode file =>
    obtain ⟨n, hr⟩ := hrefs cwd rfl
    rw [Op.body, wp_bind]
    exact h.wp_sysOpen stable_true ofTypes_true ⟨hroot, hr, hout⟩ hidle fun ip n s' _ =>
      hget ip n s'
  | mkdir cwd path =>
    obtain ⟨n, hr⟩ := hrefs cwd rfl
    rw [Op.body, wp_bind]
    exact h.wp_sysMake stable_true ofTypes_true ⟨hroot, hr, hout⟩ fun _ => hidle
  | mknod cwd path major minor =>
    obtain ⟨n, hr⟩ := hrefs cwd rfl
    rw [Op.body, wp_bind]
    exact h.wp_sysMake stable_true ofTypes_true ⟨hroot, hr, hout⟩ fun _ => hidle
  | chdir cwd path =>
    obtain ⟨H', n, hheld', rfl⟩ := hput cwd rfl
    rw [Op.body, wp_bind]
    exact h.wp_sysChdir stable_true hroot (by simp [hheld']) hidle fun ip m s' h' =>
      ⟨H'.get ip m, hheld', h'⟩

lemma Idle.wp_run {op : Op} (h : Idle L s) (hroot : ROOTINO < L.ninodes)
    (hallow : op.Allowed L.toSuperblock s) :
    wp Halt.Benign (op.run L.toSuperblock) (fun _ => Idle L) s := by
  obtain ⟨H, hheld, A, h, -⟩ := h
  simp only [Op.run, beginOp, wp_bind, wp_pause, wp_get]
  apply wp_ite
  · exact fun _ => (by decide : Halt.Benign _)
  intro _
  rw [wp_modify, wp_bind]
  have h₁ : Kept L H { s with outstanding := s.outstanding + 1 } := ⟨A, h.setLog _ _, trivial⟩
  apply (h₁.wp_body hroot hheld hallow).mono
  rintro _ s₂ ⟨H₂, hheld₂, A₂, h₂, -⟩
  simp only [endOp, wp_bind, wp_pause, wp_modify]
  exact ⟨H₂, hheld₂, A₂, h₂.setLog _ _, trivial⟩

/-- Dropping the last reference to a file without links gives back the blocks of the file, and no
others. -/
lemma Idle.wp_run_iput_last (h : Idle L s) (hlast : (s.itable ip).Last) :
    wp Halt.Benign ((Op.iput ip).run L.toSuperblock)
      (fun _ s' => ∀ b, (s'.volume L.toSuperblock).used b ↔ (s.volume L.toSuperblock).used b ∧
        ∀ slot, (s.volume L.toSuperblock).ref L ((s.itable ip).inum, slot) ≠ some b) s := by
  obtain ⟨H, hheld, A, h, -⟩ := h
  have hpos : 0 < (s.itable ip).ref := by
    rw [hlast.1]
    exact Nat.one_pos
  obtain ⟨n, hr⟩ := Handles.exists_mem_of_count_pos (H := H) (by rwa [← h.refs])
  simp only [Op.run, beginOp, wp_bind, wp_pause, wp_get]
  apply wp_ite
  · exact fun _ => (by decide : Halt.Benign _)
  intro _
  simp only [wp_modify, wp_bind, Op.body, iput, wp_pause, wp_get]
  rw [if_pos hlast, wp_bind]
  apply (h.setLog s.lh (s.outstanding + 1)).wp_iputFree exhaustible hr ⟨hpos, hlast.2.1⟩
    (by simp [hheld])
  intro s₁ hused _
  simp only [wp_setInode, endOp, wp_bind, wp_pause, wp_modify]
  rw [h.inum hr]
  exact hused

/-! ### Sequences of operations -/

/-- The operations that return, one after the other, from any sound image. -/
def machine (L : Layout) : Machine State Op := Machine.ofStep (step L.toSuperblock) (Image L)

/-- An operation that returns keeps to what the logic says about it. -/
lemma of_step {Q : State → Prop} {op : Op} (hstep : step L.toSuperblock s op = some (.ok s'))
    (h : op.Allowed L.toSuperblock s → wp Halt.Benign (op.run L.toSuperblock) (fun _ => Q) s) :
    Q s' := by
  rw [step] at hstep
  split at hstep
  · next hallow =>
    cases hrun : (op.run L.toSuperblock).run s with
    | error e => simp [hrun, Except.map] at hstep
    | ok r =>
      obtain rfl : r.2 = s' := by simpa [hrun, Except.map] using hstep
      exact (h hallow).returns (a := r.1) hrun
  · cases hstep

lemma Idle.step_ne (h : Idle L s) (hroot : ROOTINO < L.ninodes) (op : Op) :
    step L.toSuperblock s op ≠ some (.error (.panic .freeingFreeBlock)) := by
  intro hstep
  rw [step] at hstep
  split at hstep
  · next hallow =>
    cases hrun : (op.run L.toSuperblock).run s with
    | error e =>
      obtain rfl : e = .panic .freeingFreeBlock := by simpa [hrun, Except.map] using hstep
      exact (h.wp_run hroot hallow).fails hrun rfl
    | ok r => simp [hrun, Except.map] at hstep
  · cases hstep

lemma Idle.of_reachable (h : (machine L).Reachable s) : ROOTINO < L.ninodes ∧ Idle L s := by
  refine h.invariant (I := fun s => ROOTINO < L.ninodes ∧ Idle L s) ?_ ?_
  · exact fun s himage => ⟨himage.root, himage.idle⟩
  · rintro s op s' ⟨hroot, hidle⟩ hnext
    exact ⟨hroot, of_step (Machine.ofStep_next.mp hnext) (hidle.wp_run hroot)⟩

/-- Between the operations the free map is exact: a block is marked if and only if it is a metadata
block or one place of one file has it, and no block has two places. Nothing frees a free block, and
deleting a file gives back all its blocks. -/
theorem ownership_of_reachable (h : (machine L).Reachable s) :
    (∀ b < L.size, s.marked L.toSuperblock b = true ↔
        b < L.nmeta ∨ ∃! r, (s.volume L.toSuperblock).ref L r = some b) ∧
      (∀ r r' b, (s.volume L.toSuperblock).ref L r = some b →
        (s.volume L.toSuperblock).ref L r' = some b → r = r') ∧
      (∀ op, step L.toSuperblock s op ≠ some (.error (.panic .freeingFreeBlock))) ∧
      ∀ ip s', (s.itable ip).Last → step L.toSuperblock s (.iput ip) = some (.ok s') →
        ∀ b < L.size, s'.marked L.toSuperblock b = true ↔ s.marked L.toSuperblock b = true ∧
          ∀ slot, (s.volume L.toSuperblock).ref L ((s.itable ip).inum, slot) ≠ some b := by
  obtain ⟨hroot, hidle⟩ := Idle.of_reachable h
  have hexact := hidle.wellFormed.ok.exact
  refine ⟨?_, fun r r' b => hexact.inj, hidle.step_ne hroot, ?_⟩
  · intro b hb
    rw [← hexact.used_iff_existsUnique b]
    exact ⟨fun hmarked => ⟨hb, hmarked⟩, fun hused => hused.2⟩
  · intro ip s' hlast hstep b hb
    have hused := of_step hstep (fun _ => hidle.wp_run_iput_last hlast) b
    constructor
    · intro hmarked
      obtain ⟨hbefore, hfree⟩ := hused.mp ⟨hb, hmarked⟩
      exact ⟨hbefore.2, hfree⟩
    · rintro ⟨hmarked, hfree⟩
      exact (hused.mpr ⟨⟨hb, hmarked⟩, hfree⟩).2

/-- A directory with a file `a`, to which a write of 3000 bytes fails after 2000 of them; then the
file is unlinked. -/
def failedWrite : State :=
  ((machine Layout.mkfs).exec .blank
    [.ialloc T_DIR, .create 0 [slash, 97] T_FILE 0 0,
      .writei 1 (fun k => if k < 2000 then some 7 else none) 0 3000, .unlink 0 [97]]).getD .blank

/-- The file still has the blocks 47 and 48, each in one place, when its last reference is dropped;
it then gives both back. -/
theorem ownership_failedWrite : (machine Layout.mkfs).Reachable failedWrite ∧
    (failedWrite.itable 1).Last ∧
    (∃! r, (failedWrite.volume Layout.mkfs.toSuperblock).ref Layout.mkfs r = some 47) ∧
    (∃! r, (failedWrite.volume Layout.mkfs.toSuperblock).ref Layout.mkfs r = some 48) ∧
    ∃ s', step Layout.mkfs.toSuperblock failedWrite (.iput 1) = some (.ok s') ∧
      s'.marked Layout.mkfs.toSuperblock 47 = false ∧
      s'.marked Layout.mkfs.toSuperblock 48 = false := by
  have hreach : (machine Layout.mkfs).Reachable failedWrite :=
    .getD_exec blank_image (by decide +kernel)
  obtain ⟨hmarked, -, -, -⟩ := ownership_of_reachable hreach
  obtain ⟨hlast, h47, h48, hput⟩ : (failedWrite.itable 1).Last ∧
      failedWrite.marked Layout.mkfs.toSuperblock 47 = true ∧
      failedWrite.marked Layout.mkfs.toSuperblock 48 = true ∧
      ∃ s' ∈ (machine Layout.mkfs).next failedWrite (.iput 1),
        s'.marked Layout.mkfs.toSuperblock 47 = false ∧
        s'.marked Layout.mkfs.toSuperblock 48 = false := by decide +kernel
  refine ⟨hreach, hlast, ?_, ?_, ?_⟩
  · exact ((hmarked 47 (by decide)).mp h47).resolve_left (by decide)
  · exact ((hmarked 48 (by decide)).mp h48).resolve_left (by decide)
  · obtain ⟨s', hnext, hfree⟩ := hput
    exact ⟨s', Machine.ofStep_next.mp hnext, hfree⟩

end Xv6.Fs
