import Xv6.Fs.Handles

/-!
# The inode layer as an array of byte strings

Any sequence of calls of `readi`, `writei` and `itrunc` on inodes in memory returns what it would
return on an array of byte strings, and has the effect that it would have there.
-/

namespace Xv6.Fs

open Core Coroutine

/-! ### Byte strings -/

/-- The byte strings by inode number. -/
abbrev Contents := ℕ → List UInt8

/-! ### Calls -/

/-- The calls on an inode in memory, whose copies to and from memory succeed; `data` is what the
memory holds from the source on. A transaction may end between two calls. -/
inductive Call
  | readi (ip : Iref) (off n : UInt32)
  | writei (ip : Iref) (data : ℕ → UInt8) (off n : UInt32)
  | itrunc (ip : Iref)
  | commit

/-- What a call returns. -/
inductive Reply
  /-- The bytes that were read; their number is the return value. -/
  | read (bs : List UInt8)
  | value (r : ℤ)
  | done
  deriving DecidableEq

namespace Call

/-- The inode that the call is about. -/
def inode : Call → Option Iref
  | .readi ip _ _ | .writei ip _ _ _ | .itrunc ip => some ip
  | .commit => none

/-- The call of the kernel function. -/
def run (sb : Superblock) : Call → FsM Reply
  | .readi ip off n => do
    match ← Fs.readi sb ip (fun _ => true) off.toNat n.toNat with
    | some bs => return .read bs
    | none => return .value (-1)
  | .writei ip data off n => do
    return .value (← Fs.writei sb ip (fun k => some (data k)) off.toNat n.toNat)
  | .itrunc ip => do
    Fs.itrunc sb ip
    return .done
  | .commit => do
    modify fun s => { s with lh := [] }
    return .done

/-- What the call means for an array of byte strings. -/
def apply (inum : Iref → ℕ) : Call → Contents → Reply × Contents
  | .readi ip off n, C =>
    let c := C (inum ip)
    if c.length < off.toNat ∨ 2 ^ 32 ≤ off.toNat + n.toNat then (.read [], C)
    else (.read ((c.drop off.toNat).take n.toNat), C)
  | .writei ip data off n, C =>
    let c := C (inum ip)
    if c.length < off.toNat ∨ 2 ^ 32 ≤ off.toNat + n.toNat ∨
        MAXFILE * BSIZE < off.toNat + n.toNat then (.value (-1), C)
    else
      let c' := c.take off.toNat ++ (List.range n.toNat).map data ++ c.drop (off.toNat + n.toNat)
      (.value n.toNat, Function.update C (inum ip) c')
  | .itrunc ip, C => (.done, Function.update C (inum ip) [])
  | .commit, C => (.done, C)

end Call

/-- A sequence of calls of the kernel functions. -/
def runCalls (sb : Superblock) : List Call → FsM (List Reply)
  | [] => return []
  | c :: cs => do
    let r ← c.run sb
    let rs ← runCalls sb cs
    return r :: rs

/-- A sequence of calls on an array of byte strings. -/
def applyCalls (inum : Iref → ℕ) : List Call → Contents → List Reply × Contents
  | [], C => ([], C)
  | c :: cs, C =>
    let r := c.apply inum C
    let rs := applyCalls inum cs r.2
    (r.1 :: rs.1, rs.2)

/-- The byte strings that a volume holds. -/
def Volume.contents (L : Layout) (V : Volume) : Contents := fun n => (V.files L n).bytes

/-- The byte strings on disk, those of inode numbers that do not exist being empty. -/
def State.contents (L : Layout) (s : State) : Contents := fun n =>
  if n < L.ninodes then (s.volume L.toSuperblock).contents L n else []

/-! ### Refinement -/

/-- The disk or the log is full. -/
def Full (e : Halt) : Prop := e = .panic .outOfBlocks ∨ e = .panic .tooBigTransaction

lemma full_exhaustible : Exhaustible Full := ⟨.inr rfl, .inl rfl⟩

/-- The state holds the byte strings `C`, with these entries of the inode table. -/
structure Holds (L : Layout) (e : Iref → Entry) (C : Contents) (s : State) : Prop where
  entries : s.entries = e
  wellFormed : s.WellFormed L
  contents : s.contents L = C

namespace Holds

variable {L : Layout} {s : State} {V : Volume} {ip : Iref} {n : ℕ} {f : File} {e : Iref → Entry}
  {C : Contents}

lemma of_rep (he : s.entries = e) (h : Rep L ∅ s V) (hok : V.Ok L)
    (hC : ∀ n, C n = if n < L.ninodes then V.contents L n else []) : Holds L e C s where
  entries := he
  wellFormed := .of_rep h hok
  contents := by
    funext n
    rw [hC, State.contents]
    split
    · next hn =>
      simp only [Volume.contents, Volume.files, h.inode_volume hn, h.content_volume hok]
    · rfl

lemma eq_contents (h : Holds L e C s) (n : ℕ) :
    C n = if n < L.ninodes then (s.volume L.toSuperblock).contents L n else [] := by
  rw [← h.contents, State.contents]

/-- An inode in memory, and its byte string. -/
lemma loaded (h : Holds L e C s) (hlive : (e ip).Live) :
    Loaded L ∅ ip (e ip).inum s (s.volume L.toSuperblock) ∧
      C (e ip).inum = ((s.volume L.toSuperblock).files L (e ip).inum).bytes := by
  have hlive' : (s.itable ip).Live := by rwa [← h.entries] at hlive
  have hinum : (s.itable ip).inum = (e ip).inum := by rw [← h.entries]; rfl
  have hload := h.wellFormed.loaded hlive' hinum
  refine ⟨hload, ?_⟩
  rw [h.eq_contents, if_pos hload.allocated.1]
  rfl

/-- One file has changed. -/
lemma update {s' : State} (h : Holds L e C s) (he : s'.entries = s.entries)
    (h' : Loaded L ∅ ip n s' V)
    (hfiles : V.files L = Function.update ((s.volume L.toSuperblock).files L) n f) :
    Holds L e (Function.update C n f.bytes) s' := by
  apply of_rep (he.trans h.entries) h'.rep h'.ok
  intro m
  rw [Volume.contents, hfiles]
  rcases eq_or_ne m n with rfl | hm
  · rw [Function.update_self, Function.update_self, if_pos h'.allocated.1]
  · rw [Function.update_of_ne hm, Function.update_of_ne hm, h.eq_contents]
    rfl

/-- One call. -/
lemma wp_run (h : Holds L e C s) {c : Call} (hlive : ∀ ip ∈ c.inode, (e ip).Live) :
    wp Full (c.run L.toSuperblock) (fun r s' => r = (c.apply (fun ip => (e ip).inum) C).1 ∧
      Holds L e (c.apply (fun ip => (e ip).inum) C).2 s') s := by
  cases c with
  | readi ip off n =>
    obtain ⟨hload, hbytes⟩ := h.loaded (hlive ip rfl)
    have hoff := off.toNat_lt
    have hn := n.toNat_lt
    simp only [Call.run, wp_bind]
    apply hload.wp_readi hn
    rintro r (rfl | ⟨-, t, -, ht⟩)
    · simp only [wp_pure, Call.apply, hbytes, File.length_bytes, File.read_eq]
      have hwrap : (off.toNat + n.toNat) % 2 ^ 32 < off.toNat ↔
          2 ^ 32 ≤ off.toNat + n.toNat := by omega
      simp only [hwrap]
      split
      · exact ⟨rfl, h⟩
      · exact ⟨rfl, h⟩
    · cases ht
  | writei ip data off n =>
    obtain ⟨hload, hbytes⟩ := h.loaded (hlive ip rfl)
    have hoff := off.toNat_lt
    have hn := n.toNat_lt
    have hiff : ((s.volume L.toSuperblock).files L (e ip).inum).Refuses off.toNat n.toNat ↔
        ((s.volume L.toSuperblock).files L (e ip).inum).size < off.toNat ∨
          2 ^ 32 ≤ off.toNat + n.toNat ∨ MAXFILE * BSIZE < off.toNat + n.toNat := by
      simp only [File.Refuses, MAXFILE, BSIZE, NDIRECT, NINDIRECT]
      omega
    simp only [Call.run, wp_bind, Call.apply, hbytes, File.length_bytes]
    apply hload.wp_writei full_exhaustible hn
    · intro hrefuse
      rw [if_pos (hiff.mp hrefuse), wp_pure]
      exact ⟨rfl, h⟩
    · intro tot c s' V' haccept hs' h' _ hstops hfiles
      obtain ⟨rfl, hc⟩ := hstops.all fun t _ => rfl
      obtain rfl : c = n.toNat := by omega
      have hle : off.toNat ≤ ((s.volume L.toSuperblock).files L (e ip).inum).size := by
        have := mt hiff.mpr haccept
        omega
      have hdata : Source.bytes (fun k => some (data k)) 0 = data := by
        funext t
        simp [Source.bytes]
      have hholds := h.update hs' h' hfiles
      rw [File.bytes_write _ _ hle, hdata] at hholds
      rw [if_neg (mt hiff.mpr haccept), wp_pure]
      exact ⟨rfl, hholds⟩
  | itrunc ip =>
    obtain ⟨hload, -⟩ := h.loaded (hlive ip rfl)
    simp only [Call.run, wp_bind]
    apply (hload.mono (Set.empty_subset {ip})).wp_itrunc full_exhaustible
    intro s' hs' h'
    exact ⟨rfl, h.update hs' h' Volume.files_truncate⟩
  | commit =>
    simp only [Call.run, wp_bind, wp_modify, wp_pure]
    exact ⟨rfl, of_rep h.entries (h.wellFormed.rep.setLh []) h.wellFormed.ok h.eq_contents⟩

/-- A sequence of calls. -/
lemma wp_runCalls {cs : List Call} (h : Holds L e C s)
    (hlive : ∀ c ∈ cs, ∀ ip ∈ c.inode, (e ip).Live) :
    wp Full (runCalls L.toSuperblock cs)
      (fun rs s' => rs = (applyCalls (fun ip => (e ip).inum) cs C).1 ∧
        Holds L e (applyCalls (fun ip => (e ip).inum) cs C).2 s') s := by
  induction cs generalizing s C with
  | nil => exact ⟨rfl, h⟩
  | cons c cs ih =>
    simp only [runCalls, wp_bind]
    apply (h.wp_run (hlive c List.mem_cons_self)).mono
    rintro r s₁ ⟨rfl, h₁⟩
    rw [wp_bind]
    apply (ih h₁ fun c' hc' => hlive c' (List.mem_cons_of_mem c hc')).mono
    rintro rs s₂ ⟨rfl, h₂⟩
    exact ⟨rfl, h₂⟩

end Holds

/-- Every sequence of calls on inodes in memory, on a well-formed file system, returns what it
returns on an array of byte strings and leaves a well-formed file system with the byte strings that
it leaves there. Only a full disk or a full log can stop it. -/
theorem runCalls_refines {L : Layout} {s : State} (h : s.WellFormed L) {cs : List Call}
    (hlive : ∀ c ∈ cs, ∀ ip ∈ c.inode, (s.itable ip).Live) :
    match (runCalls L.toSuperblock cs).run s with
    | .ok (rs, s') => s'.WellFormed L ∧
        (rs, s'.contents L) = applyCalls (fun ip => (s.itable ip).inum) cs (s.contents L)
    | .error e => Full e := by
  have hwp := (Holds.mk rfl h rfl : Holds L s.entries (s.contents L) s).wp_runCalls hlive
  cases hrun : (runCalls L.toSuperblock cs).run s with
  | error e => exact hwp.fails hrun
  | ok r =>
    obtain ⟨rs, s'⟩ := r
    obtain ⟨hrs, hholds⟩ := hwp.returns hrun
    exact ⟨hholds.wellFormed, Prod.ext hrs hholds.contents⟩

/-- A new file, locked, on a disk without files. -/
def newFile : State :=
  match ((do ilock Layout.mkfs.toSuperblock (← ialloc Layout.mkfs.toSuperblock T_FILE)) :
    FsM PUnit).run .blank with
  | .ok (_, s) => s
  | .error _ => .blank

lemma newFile_wellFormed : newFile.WellFormed Layout.mkfs := by
  have hwp : wp (fun _ => True)
      ((do ilock Layout.mkfs.toSuperblock (← ialloc Layout.mkfs.toSuperblock T_FILE)) : FsM PUnit)
      (fun _ s => s.WellFormed Layout.mkfs) .blank := by
    rw [wp_bind]
    apply blank_image.sound.wp_ialloc ⟨trivial, trivial⟩ trivial trivial
    intro n ip s₁ _ _ h₁
    apply h₁.wp_ilock Handles.mem_get_self (fun _ => trivial) (fun _ => trivial)
    intro s₂ _ h₂
    obtain ⟨V, hrep, hok, -⟩ := h₂.volume
    exact .of_rep hrep hok
  rw [newFile]
  split
  · next a s hrun => exact hwp.returns hrun
  · obtain ⟨V, hrep, hok, -⟩ := blank_image.sound.volume
    exact .of_rep hrep hok

/-- Write over the boundary between two blocks, read, write too far, and cut off. -/
def someCalls : List Call :=
  [.writei 0 (fun k => UInt8.ofNat k) 0 1026, .readi 0 1023 10, .writei 0 (fun _ => 5) 1027 1,
    .itrunc 0, .readi 0 0 1]

theorem runCalls_refines_newFile : newFile.WellFormed Layout.mkfs ∧ (newFile.itable 0).Live ∧
    ((runCalls Layout.mkfs.toSuperblock someCalls).run newFile).toOption.map Prod.fst
      = some [.value 1026, .read [255, 0, 1], .value (-1), .done, .read []] ∧
    match (runCalls Layout.mkfs.toSuperblock someCalls).run newFile with
    | .ok (rs, s') => s'.WellFormed Layout.mkfs ∧ (rs, s'.contents Layout.mkfs)
        = applyCalls (fun ip => (newFile.itable ip).inum) someCalls (newFile.contents Layout.mkfs)
    | .error e => Full e := by
  exact ⟨newFile_wellFormed, by decide +kernel, by decide +kernel,
    runCalls_refines newFile_wellFormed (by decide +kernel)⟩

end Xv6.Fs
