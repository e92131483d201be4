import Xv6.Fs.Volume

/-!
# Files

The abstract model of the inode layer: an array of files, each with its attributes and its bytes.
Which blocks a file has is forgotten: the volumes that represent the same files differ in that only.
-/

namespace Xv6.Fs

/-- An inode without its block addresses, and the bytes of the file. -/
@[ext]
structure File where
  type : Int16
  major : Int16
  minor : Int16
  nlink : Int16
  size : ℕ
  content : ℕ → UInt8

/-- The files by inode number. -/
abbrev Files := ℕ → File

namespace File

/-- The byte string that the file holds. -/
def bytes (f : File) : List UInt8 := (List.range f.size).map f.content

/-- The bytes `src 0, ..., src (c - 1)` are written from `off` on. -/
def patch (f : File) (off c : ℕ) (src : ℕ → UInt8) : File :=
  { f with content := fun p => if off ≤ p ∧ p < off + c then src (p - off) else f.content p }

/-- The bytes that a read of `n` bytes from `off` on delivers, with the arithmetic of `uint`s. -/
def read (f : File) (off n : ℕ) : List UInt8 :=
  if f.size < off ∨ (off + n) % 2 ^ 32 < off then []
  else (List.range (min n (f.size - off))).map fun t => f.content (off + t)

/-- The bytes `src 0, ..., src (c - 1)` are written from `off` on; the first `tot` of them count for
the size. -/
def write (f : File) (off tot c : ℕ) (src : ℕ → UInt8) : File :=
  { f.patch off c src with size := max f.size (off + tot) }

/-- The file becomes empty. -/
def truncate (f : File) : File := { f with size := 0, content := fun _ => 0 }

/-- The inode is freed. -/
def delete (f : File) : File := { f.truncate with type := 0 }

/-- A new inode. -/
def new (type : Int16) : File where
  type := type
  major := 0
  minor := 0
  nlink := 0
  size := 0
  content := fun _ => 0

lemma patch_zero (f : File) (off : ℕ) (src : ℕ → UInt8) : f.patch off 0 src = f := by
  have hcontent : (f.patch off 0 src).content = f.content := by
    funext p
    exact if_neg (by omega)
  exact File.ext rfl rfl rfl rfl rfl hcontent

/-- Writing in two goes. -/
lemma patch_patch (f : File) (off c c' : ℕ) (src : ℕ → UInt8) :
    (f.patch off c src).patch (off + c) c' (fun t => src (c + t)) = f.patch off (c + c') src := by
  have hcontent : ((f.patch off c src).patch (off + c) c' fun t => src (c + t)).content
      = (f.patch off (c + c') src).content := by
    funext p
    simp only [patch]
    by_cases h₂ : off + c ≤ p ∧ p < off + c + c'
    · rw [if_pos h₂, if_pos (by omega)]
      congr 1
      omega
    · rw [if_neg h₂]
      by_cases h₁ : off ≤ p ∧ p < off + c
      · rw [if_pos h₁, if_pos (by omega)]
      · rw [if_neg h₁, if_neg (by omega)]
  exact File.ext rfl rfl rfl rfl rfl hcontent

/-! ### Byte strings -/

section Bytes

variable (f : File) {off n : ℕ}

@[simp]
lemma length_bytes : f.bytes.length = f.size := by
  rw [bytes, List.length_map, List.length_range]

@[simp]
lemma getElem_bytes {i : ℕ} (h : i < f.bytes.length) : f.bytes[i] = f.content i := by
  simp only [bytes, List.getElem_map, List.getElem_range]

/-- A read delivers a part of the byte string. -/
lemma read_eq : f.read off n
    = if f.size < off ∨ (off + n) % 2 ^ 32 < off then [] else (f.bytes.drop off).take n := by
  unfold read
  split
  · rfl
  · apply List.ext_getElem
    · simp
    · intro i h₁ h₂
      simp

/-- A write replaces a part of the byte string, and appends to it. -/
lemma bytes_write (src : ℕ → UInt8) (hoff : off ≤ f.size) :
    (f.write off n n src).bytes
      = f.bytes.take off ++ (List.range n).map src ++ f.bytes.drop (off + n) := by
  apply List.ext_getElem
  · simp [write]
    omega
  · intro i h₁ h₂
    rw [getElem_bytes]
    simp only [write, patch]
    by_cases hlow : i < off
    · rw [if_neg (by omega), List.getElem_append_left (by simp; omega),
        List.getElem_append_left (by simp; omega), List.getElem_take, getElem_bytes]
    by_cases hmid : i < off + n
    · rw [if_pos (by omega), List.getElem_append_left (by simp; omega),
        List.getElem_append_right (by simp; omega)]
      simp [Nat.min_eq_left hoff]
    · rw [if_neg (by omega), List.getElem_append_right (by simp; omega), List.getElem_drop,
        getElem_bytes]
      simp only [List.length_append, List.length_take, List.length_map, List.length_range,
        length_bytes, Nat.min_eq_left hoff]
      congr 1
      omega

end Bytes

end File

/-! ### Directories -/

/-- The inode number of the directory entry at `p`. -/
def direntInum (c : ℕ → UInt8) (p : ℕ) : ℕ := (c p).toNat + 256 * (c (p + 1)).toNat

/-- Directories name existing inode numbers. -/
def Files.Dirs (L : Layout) (A : Files) : Prop :=
  ∀ n < L.ninodes, (A n).type = T_DIR → ∀ k, direntInum (A n).content (16 * k) < L.ninodes

namespace Files.Dirs

variable {L : Layout} {A : Files} {n : ℕ} {f : File}

/-- Only the file `n` changes. -/
lemma update (h : A.Dirs L)
    (hf : f.type = T_DIR → ∀ k, direntInum f.content (16 * k) < L.ninodes) :
    Files.Dirs L (Function.update A n f) := by
  intro m hm htype k
  rcases eq_or_ne m n with rfl | hne
  · rw [Function.update_self] at htype ⊢
    exact hf htype k
  · rw [Function.update_of_ne hne] at htype ⊢
    exact h m hm htype k

/-- Fields of a file change, but neither its type nor its content. -/
lemma update_fields (h : A.Dirs L) (hn : n < L.ninodes) (htype : f.type = (A n).type)
    (hcontent : f.content = (A n).content) : Files.Dirs L (Function.update A n f) := by
  apply h.update
  rw [htype, hcontent]
  exact h n hn

/-- A file becomes empty. -/
lemma update_empty (h : A.Dirs L) (hcontent : f.content = fun _ => 0) :
    Files.Dirs L (Function.update A n f) := by
  apply h.update
  intro _ k
  rw [hcontent]
  exact L.ninodes_pos

/-- A whole entry is written to a directory. -/
lemma update_entry (h : A.Dirs L) (hn : n < L.ninodes) {off tot : ℕ} {src : ℕ → UInt8}
    (hoff : off % 16 = 0) (hsrc : direntInum src 0 < L.ninodes) :
    Files.Dirs L (Function.update A n ((A n).write off tot 16 src)) := by
  apply h.update
  intro htype k
  by_cases hk : 16 * k = off
  · have h₀ : off ≤ 16 * k ∧ 16 * k < off + 16 := by omega
    have h₁ : off ≤ 16 * k + 1 ∧ 16 * k + 1 < off + 16 := by omega
    have hsub : 16 * k - off = 0 ∧ 16 * k + 1 - off = 1 := by omega
    simp only [direntInum, File.write, File.patch, if_pos h₀, if_pos h₁, hsub]
    exact hsrc
  · have h₀ : ¬(off ≤ 16 * k ∧ 16 * k < off + 16) := by omega
    have h₁ : ¬(off ≤ 16 * k + 1 ∧ 16 * k + 1 < off + 16) := by omega
    simp only [direntInum, File.write, File.patch, if_neg h₀, if_neg h₁]
    exact h n hn htype k

end Files.Dirs

namespace Volume

variable (L : Layout) (V : Volume)

/-- The files that a volume holds. -/
def files : Files := fun n => {
  type := (V.inode n).type
  major := (V.inode n).major
  minor := (V.inode n).minor
  nlink := (V.inode n).nlink
  size := (V.inode n).size.toNat
  content := V.content L n }

variable {L V} {n b : ℕ} {d : Dinode}

/-- New blocks do not show. -/
lemma Grows.files {V' : Volume} (h : Grows L n V V') : V'.files L = V.files L := by
  funext m
  rcases eq_or_ne m n with rfl | hm
  · obtain ⟨a, ha⟩ := h.inode_self
    simp only [Volume.files, ha, h.content]
  · simp only [Volume.files, h.inode_of_ne m hm, h.content]

lemma files_setInode (href : (V.setInode n d).ref L = V.ref L) :
    (V.setInode n d).files L = Function.update (V.files L) n {
      type := d.type
      major := d.major
      minor := d.minor
      nlink := d.nlink
      size := d.size.toNat
      content := V.content L n } := by
  funext m
  rcases eq_or_ne m n with rfl | hm
  · rw [Function.update_self]
    simp only [files, setInode_inode_self, content_setInode href]
  · rw [Function.update_of_ne hm]
    simp only [files, setInode_inode_of_ne hm, content_setInode href]

/-- Copying bytes into a block of a file. -/
lemma files_patch (h : V.Ok L) {off c : ℕ} {f : ℕ → UInt8}
    (hr : V.ref L (n, fileSlot (off / BSIZE)) = some b) (hc : off % BSIZE + c ≤ BSIZE) :
    (V.write b ((V.data b).patch (off % BSIZE) c f)).files L
      = Function.update (V.files L) n ((V.files L n).patch off c f) := by
  funext m
  rcases eq_or_ne m n with rfl | hm
  · rw [Function.update_self]
    have hcontent := funext (content_patch (f := f) h hr hc)
    simp only [files, File.patch, write_inode, hcontent]
  · rw [Function.update_of_ne hm]
    simp only [files, write_inode, content_write_of_ne h hr hm]

lemma files_truncate : (V.truncate L n).files L
    = Function.update (V.files L) n (V.files L n).truncate := by
  funext m
  rcases eq_or_ne m n with rfl | hm
  · have hzero : (V.truncate L m).content L m = fun _ => 0 :=
      funext fun p => content_of_none ref_truncate_self
    rw [Function.update_self]
    simp only [files, truncate_inode_self, hzero]
    rfl
  · have hcontent : (V.truncate L n).content L m = V.content L m :=
      content_congr (fun bn => ref_truncate_of_ne hm) (fun _ _ _ => rfl)
    rw [Function.update_of_ne hm]
    simp only [files, truncate_inode_of_ne hm, hcontent]

lemma files_delete : (V.delete L n).files L
    = Function.update (V.files L) n (V.files L n).delete := by
  have href : (V.delete L n).ref L = (V.truncate L n).ref L :=
    ref_setInode_of_empty (fun _ => ref_truncate_self) (fun k _ => Dinode.addr_clear (V.inode n) k)
  have hzero : (V.truncate L n).content L n = fun _ => 0 :=
    funext fun p => content_of_none ref_truncate_self
  rw [delete, files_setInode href, files_truncate, Function.update_idem, hzero]
  rfl

end Volume

end Xv6.Fs
