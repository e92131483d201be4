import Xv6.Mkfs.Append

/-!
# The image that mkfs makes

What the root directory and the files hold after each step of `main`, and how many blocks they take;
and when the image is a sound file system.
-/

namespace Xv6.Mkfs

open Core Coroutine Fs

/-! ### Bytes -/

lemma length_strncpy (k : ℕ) (name : CStr) : (strncpy k name).length = k := by
  have hle : ((name.take k).takeWhile (· != 0)).length ≤ k := by
    apply (List.takeWhile_prefix _).length_le.trans
    rw [List.length_take]
    exact min_le_left _ _
  simp only [strncpy, List.length_append, List.length_replicate]
  omega

@[simp]
lemma length_dirent (inum : ℕ) (name : CStr) : (dirent inum name).length = 16 := by
  simp [dirent, Dirent.bytes, length_strncpy, DIRSIZ]

/-- The bytes of the root directory, with entries for these names. -/
def rootBytes (names : List CStr) : List UInt8 :=
  dirent ROOTINO dot ++ dirent ROOTINO dotdot
    ++ names.zipIdx.flatMap fun name => dirent (name.2 + 2) name.1

lemma rootBytes_concat (names : List CStr) (name : CStr) :
    rootBytes (names ++ [name]) = rootBytes names ++ dirent (names.length + 2) name := by
  simp [rootBytes, List.zipIdx_append, List.append_assoc]

@[simp]
lemma length_rootBytes (names : List CStr) :
    (rootBytes names).length = 16 * (names.length + 2) := by
  induction names using List.reverseRecOn with
  | nil => simp [rootBytes]
  | append_singleton names name ih =>
    rw [rootBytes_concat, List.length_append, ih, length_dirent, List.length_append,
      List.length_singleton]
    omega

/-- What a file holds. -/
def Arg.content (arg : Arg) : List UInt8 := (arg.reads.getD []).flatten

/-- Writing behind the end of a file. -/
lemma bytes_append (f : File) (p : List UInt8) :
    (f.write f.size p.length p.length fun t => p.getD t 0).bytes = f.bytes ++ p := by
  have hp : (List.range p.length).map (fun t => p.getD t 0) = p := by
    apply List.ext_getElem
    · simp
    · intro i h₁ h₂
      simp [List.getElem?_eq_getElem h₂]
  have hdrop : f.bytes.drop (f.size + p.length) = [] := by
    apply List.drop_eq_nil_of_le
    rw [File.length_bytes]
    exact Nat.le_add_right _ _
  rw [File.bytes_write _ _ le_rfl, hp, hdrop, List.append_nil, List.take_of_length_le]
  rw [File.length_bytes]

/-! ### The image after each step -/

/-- The blocks in use when the root directory holds `dir` and the files have these contents. -/
def need (dir : List UInt8) (contents : List (List UInt8)) : ℕ :=
  L.nmeta + cost dir.length + (contents.map fun c => cost c.length).sum

/-- The root directory holds `dir`, and there are files with these contents, from the inode behind
the root on. -/
structure Built (dir : List UInt8) (contents : List (List UInt8)) (img : State) (V : Volume) :
    Prop where
  shows : Shows ∅ img V
  ok : V.Ok L
  tight : ∀ n, Tight V n (V.files L n).size
  freeinode : img.freeinode = contents.length + 2
  freeblock : img.freeblock = need dir contents
  root : (V.files L ROOTINO).type = T_DIR ∧ (V.files L ROOTINO).bytes = dir
  nlink : ∀ n < contents.length + 2, (V.files L n).type ≠ 0 → (V.files L n).nlink = 1
  file : ∀ i c, contents[i]? = some c →
    (V.files L (i + 2)).type = T_FILE ∧ (V.files L (i + 2)).bytes = c
  free : ∀ n, contents.length + 2 ≤ n → (V.inode n).type = 0
  blank : ∀ n, (V.files L n).type = 0 → (V.files L n).size = 0

variable {dir : List UInt8} {contents : List (List UInt8)} {img : State} {V : Volume}
  {F : Exit → Prop}

variable {Q : PUnit → State → Prop}

namespace Built

lemma root_size (h : Built dir contents img V) : (V.files L ROOTINO).size = dir.length := by
  rw [← h.root.2, File.length_bytes]

variable {c p : List UInt8}

lemma file_size (h : Built dir contents img V) {i : ℕ} (hi : contents[i]? = some c) :
    (V.files L (i + 2)).size = c.length := by
  rw [← (h.file i c hi).2, File.length_bytes]

lemma allocated_root (h : Built dir contents img V) : V.Allocated L ROOTINO := by
  refine ⟨by decide, ?_⟩
  show (V.files L ROOTINO).type ≠ 0
  rw [h.root.1]
  decide

/-- A new file without content. -/
lemma wp_ialloc {Q : ℕ → State → Prop} (h : Built dir contents img V)
    (hn : contents.length + 2 < NINODES)
    (hQ : ∀ img' V', Built dir (contents ++ [[]]) img' V' → Q (contents.length + 2) img') :
    wp F (ialloc T_FILE) Q img := by
  have hfree := h.free _ le_rfl
  rw [← h.freeinode] at hn hfree
  apply h.shows.wp_ialloc h.ok hn hfree
  intro img' d hd h' hok' href hfiles hfree' hinode'
  rw [h.freeinode] at h' hok' href hfiles hinode' ⊢
  have hother : ∀ m, m ≠ contents.length + 2 →
      (V.setInode (contents.length + 2) d).files L m = V.files L m := by
    intro m hm
    rw [hfiles, Function.update_of_ne hm]
  have hself : (V.setInode (contents.length + 2) d).files L (contents.length + 2)
      = { File.new T_FILE with nlink := 1 } := by
    rw [hfiles, Function.update_self]
  have hempty : ∀ slot, V.ref L (contents.length + 2, slot) = none :=
    fun slot => Volume.ref_of_not_allocated fun hn => hn.2 (h.free _ le_rfl)
  apply hQ img' _
  refine ⟨h', hok', ?_, ?_, ?_, ?_, ?_, ?_, ?_, ?_⟩
  · intro m
    rcases eq_or_ne m (contents.length + 2) with rfl | hm
    · constructor
      · intro bn hbn
        rw [href, hempty] at hbn
        exact absurd rfl hbn
      · intro hind
        rw [href, hempty] at hind
        exact absurd rfl hind
    · rw [hother m hm]
      constructor
      · intro bn
        rw [href]
        exact (h.tight m).file bn
      · rw [href]
        exact (h.tight m).indirect
  · rw [hinode', List.length_append, List.length_singleton]
  · rw [hfree', h.freeblock]
    simp [need, cost, blocks, BSIZE]
  · rw [hother ROOTINO (by simp [ROOTINO])]
    exact h.root
  · intro m hm htype
    rcases eq_or_ne m (contents.length + 2) with rfl | hne
    · rw [hself]
    · rw [hother m hne] at htype ⊢
      rw [List.length_append, List.length_singleton] at hm
      exact h.nlink m (by omega) htype
  · intro i c hi
    rcases eq_or_ne i contents.length with rfl | hne
    · obtain rfl : [] = c := by simpa using hi
      rw [hself]
      exact ⟨rfl, rfl⟩
    · have hlt : i < contents.length := by
        have := (List.getElem?_eq_some_iff.mp hi).1
        rw [List.length_append, List.length_singleton] at this
        omega
      rw [List.getElem?_append_left hlt] at hi
      rw [hother (i + 2) (by omega)]
      exact h.file i c hi
  · intro m hm
    rw [List.length_append, List.length_singleton] at hm
    rw [Volume.setInode_inode_of_ne (by omega)]
    exact h.free m (by omega)
  · intro m
    rcases eq_or_ne m (contents.length + 2) with rfl | hne
    · rw [hself]
      exact fun _ => rfl
    · rw [hother m hne]
      exact h.blank m

/-- Appending to one file leaves the others as they are. -/
lemma tight_append {V' : Volume} {n : ℕ} (h : ∀ m, Tight V m (V.files L m).size)
    (hfiles : V'.files L = Function.update (V.files L) n
      ((V.files L n).write (V.files L n).size p.length p.length fun t => p.getD t 0))
    (href : ∀ m slot, m ≠ n → V'.ref L (m, slot) = V.ref L (m, slot))
    (hself : Tight V' n ((V.files L n).size + p.length)) (m : ℕ) :
    Tight V' m (V'.files L m).size := by
  rcases eq_or_ne m n with rfl | hm
  · have hsize : (V'.files L m).size = (V.files L m).size + p.length := by
      rw [hfiles, Function.update_self]
      exact max_eq_right (Nat.le_add_right _ _)
    rw [hsize]
    exact hself
  · rw [hfiles, Function.update_of_ne hm]
    constructor
    · intro bn
      rw [href m _ hm]
      exact (h m).file bn
    · rw [href m _ hm]
      exact (h m).indirect

/-- More bytes in the root directory. -/
lemma wp_iappend_root (h : Built dir contents img V)
    (hdie : FSSIZE < need (dir ++ p) contents → F .die)
    (hassert : MAXFILE * BSIZE < (dir ++ p).length → F .assert)
    (hQ : ∀ img' V', Built (dir ++ p) contents img' V' → Q ⟨⟩ img') :
    wp F (iappend ROOTINO p) Q img := by
  have hlength : dir.length + p.length = (dir ++ p).length := by simp
  set rest := L.nmeta + (contents.map fun c => cost c.length).sum with hrest
  have hneed : ∀ dir, need dir contents = rest + cost dir.length := by
    intro dir
    rw [need]
    omega
  have hcost : img.freeblock = rest + cost (V.files L ROOTINO).size := by
    rw [h.freeblock, h.root_size, hneed]
  apply h.shows.wp_iappend h.ok h.allocated_root (h.tight ROOTINO) hcost
  · rw [h.root_size, hlength, ← hneed]
    exact hdie
  · rw [h.root_size, hlength]
    exact hassert
  intro img' V' h' hok' hfiles href htight hfree hinode
  have hother : ∀ m, m ≠ ROOTINO → V'.files L m = V.files L m := by
    intro m hm
    rw [hfiles, Function.update_of_ne hm]
  have hself := congrFun hfiles ROOTINO
  rw [Function.update_self] at hself
  apply hQ img' V'
  refine ⟨h', hok', tight_append h.tight hfiles href htight, hinode.trans h.freeinode,
    ?_, ?_, ?_, ?_,
    ?_, ?_⟩
  · rw [hfree, h.root_size, hlength, hneed]
  · rw [hself]
    refine ⟨h.root.1, ?_⟩
    rw [bytes_append, h.root.2]
  · intro m hm htype
    rcases eq_or_ne m ROOTINO with rfl | hne
    · rw [hself] at htype ⊢
      exact h.nlink ROOTINO hm htype
    · rw [hother m hne] at htype ⊢
      exact h.nlink m hm htype
  · intro i c hi
    rw [hother (i + 2) (by simp [ROOTINO])]
    exact h.file i c hi
  · intro m hm
    have hne : m ≠ ROOTINO := by
      rw [ROOTINO]
      omega
    have htype : (V'.files L m).type = (V.files L m).type := by rw [hother m hne]
    exact htype.trans (h.free m hm)
  · intro m htype
    rcases eq_or_ne m ROOTINO with rfl | hne
    · rw [hself] at htype
      exact absurd htype h.allocated_root.2
    · rw [hother m hne] at htype ⊢
      exact h.blank m htype

/-- More bytes in the last file. -/
lemma wp_iappend_file (h : Built dir (contents ++ [c]) img V) (hn : contents.length + 2 < NINODES)
    (hdie : FSSIZE < need dir (contents ++ [c ++ p]) → F .die)
    (hassert : MAXFILE * BSIZE < (c ++ p).length → F .assert)
    (hQ : ∀ img' V', Built dir (contents ++ [c ++ p]) img' V' → Q ⟨⟩ img') :
    wp F (iappend (contents.length + 2) p) Q img := by
  have hlast : (contents ++ [c])[contents.length]? = some c := by simp
  have hsize := h.file_size hlast
  have htype := (h.file _ _ hlast).1
  have halloc : V.Allocated L (contents.length + 2) := by
    refine ⟨hn, ?_⟩
    show (V.files L (contents.length + 2)).type ≠ 0
    rw [htype]
    decide
  have hlength : c.length + p.length = (c ++ p).length := by simp
  set rest := L.nmeta + cost dir.length
    + (contents.map fun c => cost c.length).sum with hrest
  have hneed : ∀ c, need dir (contents ++ [c]) = rest + cost c.length := by
    intro c
    simp only [need, List.map_append, List.map_singleton, List.sum_append, List.sum_singleton]
    omega
  have hcost : img.freeblock = rest + cost (V.files L (contents.length + 2)).size := by
    rw [h.freeblock, hsize, hneed]
  apply h.shows.wp_iappend h.ok halloc (h.tight _) hcost
  · rw [hsize, hlength, ← hneed]
    exact hdie
  · rw [hsize, hlength]
    exact hassert
  intro img' V' h' hok' hfiles href htight hfree hinode
  have hother : ∀ m, m ≠ contents.length + 2 → V'.files L m = V.files L m := by
    intro m hm
    rw [hfiles, Function.update_of_ne hm]
  have hself := congrFun hfiles (contents.length + 2)
  rw [Function.update_self] at hself
  apply hQ img' V'
  refine ⟨h', hok', tight_append h.tight hfiles href htight, ?_, ?_, ?_, ?_, ?_, ?_, ?_⟩
  · rw [hinode, h.freeinode, List.length_append, List.length_append, List.length_singleton,
      List.length_singleton]
  · rw [hfree, hsize, hlength, hneed]
  · rw [hother ROOTINO (by simp [ROOTINO])]
    exact h.root
  · intro m hm htype'
    rw [List.length_append, List.length_singleton] at hm
    have hm' : m < (contents ++ [c]).length + 2 := by simpa using hm
    rcases eq_or_ne m (contents.length + 2) with rfl | hne
    · rw [hself] at htype' ⊢
      exact h.nlink _ hm' htype'
    · rw [hother m hne] at htype' ⊢
      exact h.nlink m hm' htype'
  · intro i c' hi
    rcases eq_or_ne i contents.length with rfl | hne
    · obtain rfl : c ++ p = c' := by simpa using hi
      rw [hself]
      refine ⟨htype, ?_⟩
      rw [bytes_append, (h.file _ _ hlast).2]
    · have hlt : i < contents.length := by
        have := (List.getElem?_eq_some_iff.mp hi).1
        rw [List.length_append, List.length_singleton] at this
        omega
      rw [List.getElem?_append_left hlt] at hi
      rw [hother (i + 2) (by omega)]
      exact h.file i c' (by rw [List.getElem?_append_left hlt, hi])
  · intro m hm
    rw [List.length_append, List.length_singleton] at hm
    have htype' : (V'.files L m).type = (V.files L m).type := by rw [hother m (by omega)]
    refine htype'.trans (h.free m ?_)
    rw [List.length_append, List.length_singleton]
    exact hm
  · intro m htype'
    rcases eq_or_ne m (contents.length + 2) with rfl | hne
    · rw [hself] at htype'
      exact absurd htype' halloc.2
    · rw [hother m hne] at htype' ⊢
      exact h.blank m htype'

/-- All the reads from one file. -/
lemma wp_reads {reads : List (List UInt8)} (h : Built dir (contents ++ [c]) img V)
    (hn : contents.length + 2 < NINODES)
    (hdie : FSSIZE < need dir (contents ++ [c ++ reads.flatten]) → F .die)
    (hassert : MAXFILE * BSIZE < (c ++ reads.flatten).length → F .assert)
    (hQ : ∀ img' V', Built dir (contents ++ [c ++ reads.flatten]) img' V' → Q ⟨⟩ img') :
    wp F (forM reads (iappend (contents.length + 2))) Q img := by
  induction reads generalizing c img V with
  | nil =>
    rw [List.flatten_nil, List.append_nil] at hQ
    exact hQ img V h
  | cons p reads ih =>
    rw [List.flatten_cons, ← List.append_assoc] at hdie hassert hQ
    have hle : (c ++ p).length ≤ (c ++ p ++ reads.flatten).length :=
      (List.prefix_append _ _).length_le
    have hneed : need dir (contents ++ [c ++ p])
        ≤ need dir (contents ++ [c ++ p ++ reads.flatten]) := by
      have := cost_mono hle
      simp only [need, List.map_append, List.map_singleton, List.sum_append, List.sum_singleton]
      omega
    rw [List.forM_cons, wp_bind]
    apply h.wp_iappend_file hn
    · exact fun hfull => hdie (hfull.trans_le hneed)
    · exact fun hbig => hassert (hbig.trans_le hle)
    · exact fun img₁ V₁ h₁ => ih h₁ hdie hassert hQ

end Built

/-! ### All files -/

/-- The files can be put on the image: they can be opened, their names have no `'/'`, none of them
is too large, and together they fit on the disk. -/
structure Fits (args : List Arg) : Prop where
  opened : ∀ arg ∈ args, arg.reads ≠ none
  base : ∀ arg ∈ args, slash ∉ arg.base
  size : ∀ arg ∈ args, arg.content.length ≤ MAXFILE * BSIZE
  blocks : need (rootBytes (args.map Arg.shortname)) (args.map Arg.content) ≤ FSSIZE

/-- The loop over the files. -/
lemma Built.wp_addFiles {args done rest : List Arg} (hargs : args = done ++ rest)
    (hn : args.length + 1 < NINODES) (hF : ∀ e, ¬Fits args → F e)
    (h : Built (rootBytes (done.map Arg.shortname)) (done.map Arg.content) img V)
    (hQ : ∀ img' V', Built (rootBytes (args.map Arg.shortname)) (args.map Arg.content) img' V' →
      Q ⟨⟩ img') :
    wp F (forM rest (addFile ROOTINO)) Q img := by
  induction rest generalizing done img V with
  | nil =>
    rw [List.append_nil] at hargs
    subst hargs
    exact hQ img V h
  | cons arg rest ih =>
    have hmem : arg ∈ args := by simp [hargs]
    have hlength : done.length + 1 ≤ args.length := by
      rw [hargs, List.length_append, List.length_cons]
      omega
    rw [List.forM_cons, wp_bind, addFile, wp_bind]
    apply wp_assert
    · exact fun hslash => hF _ fun hfits => hslash (hfits.base arg hmem)
    intro _
    cases hreads : arg.reads with
    | none => exact hF _ fun hfits => hfits.opened arg hmem hreads
    | some reads =>
      have hcontent : arg.content = reads.flatten := by simp [Arg.content, hreads]
      set dir := rootBytes (done.map Arg.shortname ++ [arg.shortname]) with hdir
      have hdirlen : dir.length = 16 * (done.length + 3) := by simp [hdir]
      -- what is needed at any time is at most what is needed in the end
      have hneed : ∀ c : List UInt8, c.length ≤ arg.content.length →
          need dir (done.map Arg.content ++ [c])
            ≤ need (rootBytes (args.map Arg.shortname)) (args.map Arg.content) := by
        intro c hc
        have hle : dir.length ≤ (rootBytes (args.map Arg.shortname)).length := by
          rw [hdirlen, length_rootBytes, List.length_map]
          omega
        have hroot := cost_mono hle
        have hfile := cost_mono hc
        simp only [need, hargs, List.map_append, List.map_cons, List.sum_append, List.sum_cons,
          List.map_nil, List.sum_nil] at hroot ⊢
        omega
      have hfull : ∀ c : List UInt8, c.length ≤ arg.content.length →
          FSSIZE < need dir (done.map Arg.content ++ [c]) → F .die := by
        intro c hc hfull
        apply hF
        intro hfits
        have := hneed c hc
        have := hfits.blocks
        omega
      have hlen : (done.map Arg.content).length = done.length := List.length_map _
      have hlen' : (done.map Arg.shortname).length = done.length := List.length_map _
      rw [wp_bind]
      apply h.wp_ialloc (by omega)
      intro img₁ V₁ h₁
      have happend : rootBytes (done.map Arg.shortname)
          ++ dirent ((done.map Arg.content).length + 2) arg.shortname = dir := by
        rw [hdir, rootBytes_concat, hlen, hlen']
      rw [wp_bind]
      apply h₁.wp_iappend_root
      · rw [happend]
        exact hfull [] (Nat.zero_le _)
      · rw [happend, hdirlen]
        intro hbig
        simp only [NINODES, MAXFILE, NDIRECT, NINDIRECT, BSIZE] at hn hbig
        omega
      intro img₂ V₂ h₂
      rw [happend] at h₂
      apply h₂.wp_reads (by omega)
      · rw [List.nil_append, ← hcontent]
        exact hfull arg.content le_rfl
      · rw [List.nil_append, ← hcontent]
        exact fun hbig => hF _ fun hfits => absurd (hfits.size arg hmem) (Nat.not_le.mpr hbig)
      intro img₃ V₃ h₃
      rw [List.nil_append, ← hcontent] at h₃
      have hdone : args = (done ++ [arg]) ++ rest := by
        rw [hargs, List.append_assoc, List.singleton_append]
      apply ih hdone
      rw [List.map_append, List.map_append]
      exact h₃

/-! ### Before the files -/

/-- The volume without files. -/
def emptyVolume : Volume where
  inode _ := Dinode.zero
  data _ := Block.zero
  used b := b < L.nmeta

lemma ref_emptyVolume (r : ℕ × Slot) : emptyVolume.ref L r = none :=
  Volume.ref_of_not_allocated fun hn => hn.2 rfl

lemma emptyVolume_ok : emptyVolume.Ok L where
  used_lt hb := lt_trans hb (by decide)
  exact := by
    constructor
    · intro b
      simp only [ref_emptyVolume]
      simp [emptyVolume]
    · intro r r' b hr
      rw [ref_emptyVolume] at hr
      cases hr
    · intro r b hr
      rw [ref_emptyVolume] at hr
      cases hr
  size_le hn := absurd rfl hn.2
  mapped hn := absurd rfl hn.2

lemma shows_cleared :
    Shows ∅ { cleared with disk := Function.update cleared.disk 1 sbBlock } emptyVolume where
  sectors := rfl
  free_le := (by decide : cleared.freeblock ≤ FSSIZE)
  used _ := Iff.rfl
  data b hb _ := by
    have hne : b ≠ 1 := by
      rintro rfl
      exact absurd hb (by decide)
    simp only [Function.update_of_ne hne]
    rfl
  zero b hb _ _ := by
    have hne : b ≠ 1 := by
      rintro rfl
      exact absurd hb (by decide)
    simp only [Function.update_of_ne hne]
    rfl
  inode n _ _ := by
    simp only [Function.update_of_ne (Shows.IBLOCK_ne_one n)]
    exact Block.dinode_zero _
  superblock := by simp only [Function.update_self]

/-- The root directory has its own two entries. -/
lemma wp_makeRoot {Q : ℕ → State → Prop} (h : Shows ∅ img emptyVolume)
    (hinode : img.freeinode = ROOTINO) (hfree : img.freeblock = L.nmeta)
    (hQ : ∀ img V, Built (rootBytes []) [] img V → Q ROOTINO img) : wp F makeRoot Q img := by
  rw [makeRoot, wp_bind]
  apply h.wp_ialloc emptyVolume_ok (by rw [hinode]; decide) rfl
  intro img₁ d hd h₁ hok₁ href₁ hfiles₁ hfree₁ hinode₁
  rw [hinode] at h₁ hok₁ href₁ hfiles₁ hinode₁ ⊢
  have hempty : ∀ r, (emptyVolume.setInode ROOTINO d).ref L r = none := by
    intro r
    rw [href₁]
    exact ref_emptyVolume r
  have hbuilt : Built [] [] img₁ (emptyVolume.setInode ROOTINO d) := by
    refine ⟨h₁, hok₁, ?_, hinode₁, ?_, ?_, ?_, ?_, ?_, ?_⟩
    · intro m
      constructor
      · exact fun bn hbn => absurd (hempty _) hbn
      · exact fun hind => absurd (hempty _) hind
    · rw [hfree₁, hfree]
      decide
    · rw [hfiles₁, Function.update_self]
      exact ⟨rfl, rfl⟩
    · intro m _ htype
      rcases eq_or_ne m ROOTINO with rfl | hne
      · rw [hfiles₁, Function.update_self]
      · rw [hfiles₁, Function.update_of_ne hne] at htype
        exact absurd rfl htype
    · intro i c hi
      cases hi
    · intro m hm
      rw [Volume.setInode_inode_of_ne]
      · rfl
      · rintro rfl
        exact absurd hm (by decide)
    · intro m _
      rcases eq_or_ne m ROOTINO with rfl | hne
      · rw [hfiles₁, Function.update_self]
        rfl
      · rw [hfiles₁, Function.update_of_ne hne]
        rfl
  have hdots : [] ++ dirent ROOTINO dot ++ dirent ROOTINO dotdot = rootBytes [] := rfl
  rw [wp_bind]
  apply wp_assert
  · exact fun hne => absurd rfl hne
  intro _
  rw [wp_bind]
  apply hbuilt.wp_iappend_root
  · exact fun hfull => absurd hfull (by decide)
  · exact fun hbig => absurd hbig (by decide)
  intro img₂ V₂ h₂
  rw [wp_bind]
  apply h₂.wp_iappend_root
  · exact fun hfull => absurd hfull (by decide)
  · exact fun hbig => absurd hbig (by decide)
  intro img₃ V₃ h₃
  rw [hdots] at h₃
  exact hQ img₃ V₃ h₃

/-! ### After the files -/

lemma bit_bitmap {used : ℕ} (h : used ≤ BPB) (b : ℕ) : (bitmap used).bit b = decide (b < used) := by
  induction used with
  | zero => simp [bitmap, Block.bit]
  | succ used ih =>
    have hlt : used / 8 < BSIZE := by
      simp only [BPB, BSIZE] at h ⊢
      omega
    have hstep : bitmap (used + 1) = (bitmap used).setBit used := by
      rw [bitmap, List.range_succ, List.foldl_append]
      rfl
    rw [hstep, Block.bit_setBit _ hlt, ih (by omega)]
    simp only [Nat.lt_succ_iff_lt_or_eq, Bool.decide_or]

/-- The size that `main` gives the root directory in the end. -/
def rootSize (args : List Arg) : ℕ := (16 * (args.length + 2) / BSIZE + 1) * BSIZE

/-- The finished image: `V` with a larger root directory, and with the free map. -/
structure Done (args : List Arg) (img : State) (V : Volume) : Prop where
  built : ∃ img₀, Built (rootBytes (args.map Arg.shortname)) (args.map Arg.content) img₀ V
  data : ∀ b, L.nmeta ≤ b → b < FSSIZE → img.disk b = V.data b
  inode : ∀ n < NINODES, n ≠ ROOTINO → (img.disk (L.IBLOCK n)).dinode (n % IPB) = V.inode n
  root : (img.disk (L.IBLOCK ROOTINO)).dinode (ROOTINO % IPB)
    = { V.inode ROOTINO with size := UInt32.ofNat (rootSize args) }
  bitmap : img.disk L.bmapstart
    = Mkfs.bitmap (need (rootBytes (args.map Arg.shortname)) (args.map Arg.content))
  superblock : img.disk 1 = sbBlock

/-- `mkfs` ends with status 0 unless the files do not fit. -/
lemma wp_main {args : List Arg} (hn : args.length + 1 < NINODES) (hF : ∀ e, ¬Fits args → F e) :
    wp F (main args) (fun _ img => ∃ V, Done args img V) cleared := by
  rw [main, wp_bind, wp_wsect, wp_bind]
  apply wp_makeRoot shows_cleared rfl rfl
  intro img₀ V₀ h₀
  rw [wp_bind]
  have hargs : args = [] ++ args := rfl
  apply Built.wp_addFiles hargs hn hF h₀
  intro img₁ V h₁
  set dir := rootBytes (args.map Arg.shortname) with hdir
  have hsize : (V.inode ROOTINO).size.toNat = 16 * (args.length + 2) := by
    show (V.files L ROOTINO).size = _
    rw [h₁.root_size, hdir, length_rootBytes, List.length_map]
  rw [wp_bind, fixSize, wp_bind]
  apply h₁.shows.wp_rinode (by decide)
  rw [hsize]
  apply (h₁.shows.mono.setInode _).wp_winode (by decide) Volume.setInode_inode_self
  intro img₂ h₂ hfree₂ _
  have hfree : img₂.freeblock = need dir (args.map Arg.content) := hfree₂.trans h₁.freeblock
  have hle : img₂.freeblock ≤ FSSIZE := h₂.free_le
  rw [wp_bind, wp_get, balloc, wp_bind]
  apply wp_assert
  · intro hbig
    exact absurd (hle.trans_lt (by decide)) hbig
  intro _
  rw [wp_wsect]
  have hbmap : ∀ n < NINODES, L.IBLOCK n ≠ L.bmapstart := fun n hn => (L.IBLOCK_lt hn).ne
  refine ⟨V, ⟨img₁, h₁⟩, ?_, ?_, ?_, ?_, ?_⟩
  · intro b hb hlt
    have hne : b ≠ L.bmapstart := by
      have := L.bmapstart_lt
      omega
    simp only [Function.update_of_ne hne]
    exact h₂.data b hb hlt
  · intro n hn hne
    simp only [Function.update_of_ne (hbmap n hn)]
    rw [h₂.inode n hn (Set.notMem_empty n), Volume.setInode_inode_of_ne hne]
  · simp only [Function.update_of_ne (hbmap ROOTINO (by decide))]
    rw [h₂.inode ROOTINO (by decide) (Set.notMem_empty _), Volume.setInode_inode_self]
    rfl
  · simp only [hfree, Function.update_self]
    rfl
  · have hne : 1 ≠ L.bmapstart := by decide
    simp only [Function.update_of_ne hne]
    exact h₂.superblock

/-! ### The file system on the image -/

/-- The kernel before it has read anything from the image. -/
def boot (img : State) : Fs.State where
  disk := img.disk
  itable _ := { Dinode.zero with inum := 0, ref := 0, locked := false, valid := false }
  lh := []
  outstanding := 0

/-- The file system on the image. -/
def State.volume (img : State) : Volume := (boot img).volume L.toSuperblock

/-- Files have a block for each part of their content, no block has two places, all of them are data
blocks, and the free map marks exactly the blocks in use. -/
structure WellFormed (img : State) : Prop where
  mapped : ∀ n < NINODES, ∀ bn < blocks (img.volume.inode n).size.toNat,
    img.volume.ref L (n, fileSlot bn) ≠ none
  inj : ∀ r r' b, img.volume.ref L r = some b → img.volume.ref L r' = some b → r = r'
  range : ∀ r b, img.volume.ref L r = some b → L.nmeta ≤ b ∧ b < FSSIZE
  bitmap : ∀ b < BPB, (boot img).marked L.toSuperblock b = true
    ↔ b < L.nmeta ∨ ∃ r, img.volume.ref L r = some b

variable {args : List Arg}

lemma rootSize_lt (hn : args.length + 1 < NINODES) : rootSize args < 2 ^ 32 := by
  simp only [rootSize, BSIZE, NINODES] at hn ⊢
  omega

lemma lt_blocks_iff {bn e : ℕ} : bn < blocks e ↔ bn * BSIZE < e := by
  simp only [blocks, BSIZE]
  omega

namespace Done

lemma inode_volume (h : Done args img V) {n : ℕ} (hn : n < NINODES) (hne : n ≠ ROOTINO) :
    img.volume.inode n = V.inode n := h.inode n hn hne

lemma inode_root (h : Done args img V) : img.volume.inode ROOTINO
    = { V.inode ROOTINO with size := UInt32.ofNat (rootSize args) } := h.root

/-- The blocks of the files are those of `V`. -/
lemma ref_volume (h : Done args img V) : img.volume.ref L = V.ref L := by
  obtain ⟨img₀, hbuilt⟩ := h.built
  apply Volume.ref_congr
  · intro n
    apply and_congr_right
    intro hn
    rcases eq_or_ne n ROOTINO with rfl | hne
    · rw [h.inode_root]
    · rw [h.inode_volume hn hne]
  · intro n hn k _
    rcases eq_or_ne n ROOTINO with rfl | hne
    · rw [h.inode_root]
      rfl
    · rw [h.inode_volume hn.1 hne]
  · intro n b hb
    exact h.data b (hbuilt.ok.le_of_ref hb) (hbuilt.ok.lt_of_ref hb)

lemma marked_iff (h : Done args img V) {b : ℕ} (hb : b < BPB) :
    (boot img).marked L.toSuperblock b = true ↔ V.used b := by
  obtain ⟨img₀, hbuilt⟩ := h.built
  have hle : img₀.freeblock ≤ BPB := hbuilt.shows.free_le.trans (by decide)
  have hblock : L.BBLOCK b = L.bmapstart := by
    rw [Superblock.BBLOCK, Nat.div_eq_of_lt hb, Nat.zero_add]
  rw [hbuilt.freeblock] at hle
  rw [hbuilt.shows.used, hbuilt.freeblock, State.marked, hblock, Nat.mod_eq_of_lt hb]
  show (img.disk L.bmapstart).bit b = true ↔ _
  rw [h.bitmap, bit_bitmap hle, decide_eq_true_iff]

/-- Only the root directory can have a hole: when its entries fill its last block, its size is
larger than that by a block. -/
lemma root_mapped_iff (h : Done args img V) (hn : args.length + 1 < NINODES) :
    (∀ bn < blocks (img.volume.inode ROOTINO).size.toNat,
      img.volume.ref L (ROOTINO, fileSlot bn) ≠ none) ↔ (args.length + 2) % 64 ≠ 0 := by
  obtain ⟨img₀, hbuilt⟩ := h.built
  have hroot : (V.files L ROOTINO).size = 16 * (args.length + 2) := by
    rw [hbuilt.root_size, length_rootBytes, List.length_map]
  have hsize : (img.volume.inode ROOTINO).size.toNat = rootSize args := by
    rw [h.inode_root]
    exact UInt32.toNat_ofNat_of_lt' (rootSize_lt hn)
  rw [hsize, h.ref_volume]
  constructor
  · intro hmapped hfull
    have hlast : 16 * (args.length + 2) / BSIZE < blocks (rootSize args) := by
      rw [lt_blocks_iff, rootSize]
      simp only [BSIZE]
      omega
    have hlt := (hbuilt.tight ROOTINO).file _ (hmapped _ hlast)
    rw [hroot] at hlt
    simp only [BSIZE] at hlt
    omega
  · intro hfull bn hbn
    apply hbuilt.ok.mapped hbuilt.allocated_root
    show bn * BSIZE < (V.files L ROOTINO).size
    rw [hroot]
    rw [lt_blocks_iff, rootSize] at hbn
    simp only [BSIZE] at hbn ⊢
    omega

lemma wellFormed_iff (h : Done args img V) (hn : args.length + 1 < NINODES) :
    WellFormed img ↔ (args.length + 2) % 64 ≠ 0 := by
  rw [← h.root_mapped_iff hn]
  constructor
  · exact fun hwf => hwf.mapped ROOTINO (by decide)
  · intro hroot
    obtain ⟨img₀, hbuilt⟩ := h.built
    refine ⟨?_, ?_, ?_, ?_⟩
    · intro n hn' bn hbn
      rcases eq_or_ne n ROOTINO with rfl | hne
      · exact hroot bn hbn
      · rw [h.ref_volume]
        rw [h.inode_volume hn' hne, lt_blocks_iff] at hbn
        apply hbuilt.ok.mapped ⟨hn', ?_⟩ hbn
        intro htype
        have hzero : (V.inode n).size.toNat = 0 := hbuilt.blank n htype
        rw [hzero] at hbn
        exact absurd hbn (Nat.not_lt_zero _)
    · rw [h.ref_volume]
      exact fun r r' b => hbuilt.ok.exact.inj
    · rw [h.ref_volume]
      exact fun r b hr => ⟨hbuilt.ok.le_of_ref hr, hbuilt.ok.lt_of_ref hr⟩
    · intro b hb
      rw [h.marked_iff hb, h.ref_volume]
      exact hbuilt.ok.exact.used_iff b

end Done

lemma done_of_mkfs (hn : args.length + 1 < NINODES) (h : mkfs args = some img) :
    ∃ V, Done args img V := by
  have hwp := wp_main hn (F := fun _ => True) fun _ _ => trivial
  rw [mkfs] at h
  split at h
  next hrun =>
    cases h
    exact hwp.returns hrun
  next => cases h

/-- Files that fit are put on the image. -/
lemma exists_mkfs (hn : args.length + 1 < NINODES) (hfits : Fits args) :
    ∃ img V, mkfs args = some img ∧ Done args img V := by
  have hwp := wp_main hn (F := fun _ => ¬Fits args) fun _ h => h
  rw [mkfs]
  split
  next img hrun =>
    obtain ⟨V, hdone⟩ := hwp.returns hrun
    exact ⟨img, V, rfl, hdone⟩
  next hrun => exact absurd hfits (hwp.fails hrun)

/-- The image is well-formed unless the entries of the root directory fill its last block. -/
theorem mkfs_wellFormed_iff (h : mkfs args = some img) (hn : args.length + 1 < NINODES) :
    WellFormed img ↔ (args.length + 2) % 64 ≠ 0 := by
  obtain ⟨V, hdone⟩ := done_of_mkfs hn h
  exact hdone.wellFormed_iff hn

/-- A file `a` without content. -/
def emptyFile : Arg where
  path := [97]
  reads := some []

lemma fits_emptyFile : Fits [emptyFile] := by
  refine ⟨?_, ?_, ?_, ?_⟩ <;> decide

/-- With one file the image is well-formed. -/
theorem mkfs_wellFormed_emptyFile : ∃ img, mkfs [emptyFile] = some img ∧ WellFormed img := by
  obtain ⟨img, V, hmkfs, -⟩ := exists_mkfs (by decide) fits_emptyFile
  exact ⟨img, hmkfs, (mkfs_wellFormed_iff hmkfs (by decide)).mpr (by decide)⟩

/-- With 62 files the root directory has 64 entries of 16 bytes, which fill one block; its size is
two blocks. -/
theorem mkfs_not_wellFormed :
    ∃ img, mkfs (List.replicate 62 emptyFile) = some img ∧ ¬WellFormed img := by
  have hfits : Fits (List.replicate 62 emptyFile) := by
    have hmem : ∀ arg ∈ List.replicate 62 emptyFile, arg = emptyFile :=
      fun _ => List.eq_of_mem_replicate
    refine ⟨?_, ?_, ?_, by decide +kernel⟩
    all_goals
      intro arg harg
      rw [hmem arg harg]
      decide
  obtain ⟨img, V, hmkfs, hdone⟩ := exists_mkfs (by decide) hfits
  refine ⟨img, hmkfs, ?_⟩
  rw [hdone.wellFormed_iff (by decide)]
  decide

end Xv6.Mkfs
