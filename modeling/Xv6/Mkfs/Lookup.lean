import Xv6.Fs.Directory
import Xv6.Mkfs.Image

/-!
# Reading the image

The kernel finds each file that `mkfs` has put on the image, by its name, and reads from it what
`mkfs` was given. The root directory may have a hole behind its last entry, which no search for a
name of the directory meets.
-/

namespace Xv6.Mkfs

open Core Coroutine Fs

/-! ### The entries of the root directory -/

/-- The inode numbers and names in the root directory. -/
def rootEntries (names : List CStr) : List (ℕ × CStr) :=
  (ROOTINO, dot) :: (ROOTINO, dotdot) :: names.zipIdx.map fun name => (name.2 + 2, name.1)

lemma rootBytes_eq (names : List CStr) :
    rootBytes names = (rootEntries names).flatMap fun e => dirent e.1 e.2 := by
  simp [rootBytes, rootEntries, List.flatMap_map]

variable {k n : ℕ} {e : ℕ × CStr} {name : CStr} {arg : Arg} {d : Dinode}

lemma getElem?_flatMap_dirent {es : List (ℕ × CStr)} {t : ℕ} (he : es[k]? = some e) (ht : t < 16) :
    (es.flatMap fun e => dirent e.1 e.2)[16 * k + t]? = (dirent e.1 e.2)[t]? := by
  induction es generalizing k with
  | nil => cases he
  | cons e' es ih =>
    rw [List.flatMap_cons]
    cases k with
    | zero =>
      obtain rfl : e' = e := by simpa using he
      rw [Nat.mul_zero, Nat.zero_add, List.getElem?_append_left (by simpa using ht)]
    | succ k =>
      rw [List.getElem?_append_right (by rw [length_dirent]; omega), length_dirent, ← ih he]
      congr 1
      omega

/-- The entries of a directory file with these bytes. -/
lemma dirent_of_bytes {f : File} {names : List CStr} (hf : f.bytes = rootBytes names)
    (hsize : f.size < 2 ^ 32) (he : (rootEntries names)[k]? = some e) :
    f.dirent (16 * k) = ⟨e.1 % 2 ^ 16, strncpy DIRSIZ e.2⟩ := by
  have hlt : k < (rootEntries names).length := (List.getElem?_eq_some_iff.mp he).1
  have hlen : f.size = 16 * (names.length + 2) := by
    rw [← File.length_bytes, hf, length_rootBytes]
  have hwhole : 16 * k + 16 ≤ f.size := by
    simp only [rootEntries, List.length_cons, List.length_map, List.length_zipIdx] at hlt
    omega
  have hread : f.read (16 * k) 16 = dirent e.1 e.2 := by
    apply List.ext_getElem?
    intro t
    by_cases ht : t < 16
    · rw [← getElem?_flatMap_dirent he ht, ← rootBytes_eq, ← hf, File.read_eq, if_neg (by omega)]
      simp [ht, List.getElem?_drop]
    · rw [List.getElem?_eq_none, List.getElem?_eq_none]
      · rw [length_dirent]
        omega
      · rw [(File.read_dirent hwhole hsize).1]
        omega
  rw [← (File.read_dirent hwhole hsize).2, hread]
  exact Dirent.ofBytes_bytes (Nat.mod_lt _ (by norm_num))

variable {args : List Arg} {img : State} {V : Volume} {F : Halt → Prop} {s : Fs.State}
  {dp ip : Iref}

lemma Done.root_dirent (h : Done args img V)
    (he : (rootEntries (args.map Arg.shortname))[k]? = some e) :
    (V.files L ROOTINO).dirent (16 * k) = ⟨e.1 % 2 ^ 16, strncpy DIRSIZ e.2⟩ := by
  obtain ⟨img₀, hbuilt⟩ := h.built
  exact dirent_of_bytes hbuilt.root.2 Volume.files_size_lt he

lemma Done.root_size (h : Done args img V) : (V.files L ROOTINO).size = 16 * (args.length + 2) := by
  obtain ⟨img₀, hbuilt⟩ := h.built
  rw [hbuilt.root_size, length_rootBytes, List.length_map]

/-! ### Searching the root directory -/

/-- The root directory of the image is in memory, at `dp`. -/
structure AtRoot (img : State) (dp : Iref) (s : Fs.State) : Prop where
  disk : s.disk = img.disk
  inode : (s.itable dp).toDinode = img.volume.inode ROOTINO

lemma AtRoot.size (hs : AtRoot img dp s) (h : Done args img V) (hn : args.length + 1 < NINODES) :
    (s.itable dp).size.toNat = rootSize args := by
  rw [hs.inode, h.inode_root]
  exact UInt32.toNat_ofNat_of_lt' (rootSize_lt hn)

/-- The entries before the hole are read. -/
lemma AtRoot.wp_readDirent {Q : Dirent → Fs.State → Prop} {p : Panic} (hs : AtRoot img dp s)
    (h : Done args img V) (hn : args.length + 1 < NINODES) (hk : k < args.length + 2)
    (hQ : Q ((V.files L ROOTINO).dirent (16 * k)) s) : wp F (readDirent sb dp (16 * k) p) Q s := by
  have hroot := h.root_size
  obtain ⟨img₀, hbuilt⟩ := h.built
  have hin : 16 * k / BSIZE * BSIZE < (V.inode ROOTINO).size.toNat := by
    have := Nat.div_mul_le_self (16 * k) BSIZE
    show _ < (V.files L ROOTINO).size
    omega
  obtain ⟨b, hb⟩ := Option.ne_none_iff_exists'.mp (hbuilt.ok.mapped hbuilt.allocated_root hin)
  have hdirect : 16 * k / BSIZE < NDIRECT := by
    simp only [NINODES, BSIZE, NDIRECT] at hn ⊢
    omega
  have haddr : (s.itable dp).addr (16 * k / BSIZE) = b ∧ b ≠ 0 := by
    rw [fileSlot_eq_addrSlot hdirect, Volume.ref_addrSlot hbuilt.allocated_root hdirect.le] at hb
    rw [hs.inode, h.inode_root]
    exact nonzero_eq_some.mp hb
  have hdata : s.disk b = V.data b := by
    rw [hs.disk]
    exact h.data b (hbuilt.ok.le_of_ref hb) (hbuilt.ok.lt_of_ref hb)
  have hsize := hs.size h hn
  have hle : 16 * k + 16 ≤ rootSize args := by
    simp only [rootSize, BSIZE]
    omega
  have hlt := rootSize_lt hn
  have hwrap : (16 * k + 16) % 2 ^ 32 = 16 * k + 16 := Nat.mod_eq_of_lt (by omega)
  have hpart : min 16 (BSIZE - 16 * k % BSIZE) = 16 := by
    simp only [BSIZE]
    omega
  -- one round of the loop reads the whole entry, a second one ends it
  have hbytes : (List.range 16).map (fun t => (V.data b).byte (16 * k % BSIZE + t)) ++ []
      = (V.files L ROOTINO).read (16 * k) 16 := by
    rw [File.read, if_neg (by omega), Nat.min_eq_left (by omega), List.append_nil]
    apply List.map_congr_left
    intro t ht
    rw [List.mem_range] at ht
    have hin : 16 * k % BSIZE + t < BSIZE := by
      simp only [BSIZE]
      omega
    have hsplit := add_div_BSIZE hin
    show _ = V.content L ROOTINO (16 * k + t)
    rw [Volume.content_of_ref (by rw [hsplit.1]; exact hb), hsplit.2]
  have hwhole : 16 * k + 16 ≤ (V.files L ROOTINO).size := by omega
  obtain ⟨hlength, hdirent⟩ := File.read_dirent hwhole Volume.files_size_lt
  simp only [readDirent, readi, Dirent.size, wp_bind, wp_get, hsize, hwrap]
  rw [if_neg (by omega), if_neg (by omega)]
  show wp F (readLoop sb dp _ 16 (15 + 1) 0 (16 * k)) _ s
  simp only [readLoop, Nat.zero_add, Nat.sub_zero, hpart, lt_self_iff_false, if_false]
  rw [if_pos (by norm_num), wp_bind, bmap, if_pos hdirect, bmapAddr, wp_bind, wp_get, haddr.1,
    if_neg haddr.2, wp_pure]
  simp only [wp_bind, wp_bread, wp_brelse, hdata, List.all_eq_true, implies_true, if_true, wp_pure,
    Option.map_some, hbytes, hlength, hdirent]
  exact hQ

/-- The search for a name that the directory has. -/
lemma AtRoot.wp_dirlookupFrom {Q : Option (Iref × ℕ) → Fs.State → Prop}
    {fuel j : ℕ} (hs : AtRoot img dp s) (h : Done args img V) (hn : args.length + 1 < NINODES)
    (hfind : (V.files L ROOTINO).Finds name j) (hk : k ≤ j) (hfuel : j < k + fuel)
    (hQ : wp F (iget ((V.files L ROOTINO).dirent (16 * j)).inum)
      (fun ip => Q (some (ip, 16 * j))) s) :
    wp F (dirlookupFrom sb dp name fuel (16 * k)) Q s := by
  have hj := hfind.1.1
  have hroot := h.root_size
  induction fuel generalizing k with
  | zero => omega
  | succ fuel ih =>
    have hle : 16 * (args.length + 2) ≤ rootSize args := by
      simp only [rootSize, BSIZE]
      omega
    simp only [dirlookupFrom, wp_bind, wp_get, hs.size h hn]
    rw [if_pos (by omega), wp_bind]
    apply hs.wp_readDirent h hn (by omega)
    rcases hk.lt_or_eq with hlt | rfl
    · rw [if_pos]
      · exact ih hlt (by omega)
      · by_contra hmatch
        rw [not_or, not_not] at hmatch
        exact hfind.2 k hlt ⟨by omega, hmatch⟩
    · rw [if_neg]
      · rw [wp_bind]
        exact hQ
      · rw [not_or, not_not]
        exact hfind.1.2

/-! ### Names -/

/-- The names that the files get are C strings that a path can name, and the directory can tell them
apart. -/
structure Named (args : List Arg) : Prop where
  terminated : ∀ arg ∈ args, 0 ∉ arg.path
  nonempty : ∀ arg ∈ args, arg.shortname ≠ []
  ne_dot : ∀ arg ∈ args, arg.shortname ≠ dot ∧ arg.shortname ≠ dotdot
  distinct : args.Pairwise fun arg arg' => arg.shortname.take DIRSIZ ≠ arg'.shortname.take DIRSIZ

lemma Arg.base_sublist (arg : Arg) : arg.base.Sublist arg.path := by
  unfold base
  split
  · exact List.drop_sublist _ _
  · exact List.Sublist.refl _

lemma Arg.shortname_sublist (arg : Arg) : arg.shortname.Sublist arg.base := by
  unfold shortname
  split
  · exact List.tail_sublist _
  · exact List.Sublist.refl _

lemma skipelem_name (hne : name ≠ []) (hslash : slash ∉ name) :
    skipelem (slash :: name) = some (name.take DIRSIZ, []) := by
  have hall : ∀ c ∈ name, (c != slash) = true := by
    intro c hc
    rw [bne_iff_ne]
    rintro rfl
    exact hslash hc
  obtain ⟨c, cs, rfl⟩ := List.exists_cons_of_ne_nil hne
  have hc : c ≠ slash := fun h => hslash (h ▸ List.mem_cons_self)
  have hdrop : (slash :: c :: cs).dropWhile (· == slash) = c :: cs := by
    simp [hc]
  rw [skipelem, hdrop]
  simp only [List.takeWhile_eq_self_iff.mpr hall, List.dropWhile_eq_nil_iff.mpr hall,
    List.dropWhile_nil]

lemma getElem?_rootEntries {names : List CStr} {i : ℕ} (hi : names[i]? = some name) :
    (rootEntries names)[i + 2]? = some (i + 2, name) := by
  simp [rootEntries, hi]

/-- A name finds the entries with the same first bytes. -/
lemma Done.namecmp_root (h : Done args img V)
    (he : (rootEntries (args.map Arg.shortname))[k]? = some e) (hname : 0 ∉ name) (he₀ : 0 ∉ e.2) :
    namecmp (name.take DIRSIZ) ((V.files L ROOTINO).dirent (16 * k)).name = 0
      ↔ name.take DIRSIZ = e.2.take DIRSIZ := by
  have hname' : 0 ∉ name.take DIRSIZ := fun hmem => hname (List.mem_of_mem_take hmem)
  rw [h.root_dirent he, namecmp, strncmp_eq_zero_iff, clip_strncpy, CStr.clip_eq_take hname',
    CStr.clip_eq_take he₀, List.take_take, Nat.min_self]

lemma Named.zero_notMem (h : Named args) (harg : arg ∈ args) : 0 ∉ arg.shortname :=
  fun hmem => h.terminated arg harg
    (arg.base_sublist.subset (arg.shortname_sublist.subset hmem))

/-- Names of one or two bytes are not cut. -/
lemma eq_of_take_eq {name' : CStr} (hle : name'.length ≤ 2)
    (h : name.take DIRSIZ = name'.take DIRSIZ) : name = name' := by
  rw [List.take_of_length_le (l := name') (hle.trans (by decide))] at h
  have hlen := congrArg List.length h
  rw [List.length_take] at hlen
  rw [← h, List.take_of_length_le]
  simp only [DIRSIZ] at hlen ⊢
  omega

/-- The entry of a file is the first one with its name. -/
lemma Done.finds (h : Done args img V) (hnamed : Named args) {i : ℕ}
    (hi : args[i]? = some arg) (hn : args.length + 1 < NINODES) :
    (V.files L ROOTINO).Finds (arg.shortname.take DIRSIZ) (i + 2) ∧
      ((V.files L ROOTINO).dirent (16 * (i + 2))).inum = i + 2 := by
  have hroot := h.root_size
  have hlt : i < args.length := (List.getElem?_eq_some_iff.mp hi).1
  have hmem : arg ∈ args := List.mem_of_getElem? hi
  have hzero := hnamed.zero_notMem hmem
  have hentry : (rootEntries (args.map Arg.shortname))[i + 2]? = some (i + 2, arg.shortname) :=
    getElem?_rootEntries (by simp [hi])
  have hinum : ((V.files L ROOTINO).dirent (16 * (i + 2))).inum = i + 2 := by
    rw [h.root_dirent hentry]
    apply Nat.mod_eq_of_lt
    simp only [NINODES] at hn
    omega
  refine ⟨⟨⟨by omega, by rw [hinum]; omega,
    (h.namecmp_root hentry hzero hzero).mpr rfl⟩, ?_⟩, hinum⟩
  rintro k hk ⟨-, -, hcmp⟩
  rcases k with _ | _ | k
  · rw [h.namecmp_root (e := (ROOTINO, dot)) rfl hzero (by decide)] at hcmp
    exact (hnamed.ne_dot arg hmem).1 (eq_of_take_eq (by decide) hcmp)
  · rw [h.namecmp_root (e := (ROOTINO, dotdot)) rfl hzero (by decide)] at hcmp
    exact (hnamed.ne_dot arg hmem).2 (eq_of_take_eq (by decide) hcmp)
  · have hk' : k < args.length := by omega
    have hentry' : (rootEntries (args.map Arg.shortname))[k + 2]?
        = some (k + 2, args[k].shortname) := getElem?_rootEntries (by simp [hk'])
    rw [h.namecmp_root hentry' hzero (hnamed.zero_notMem (List.getElem_mem hk'))] at hcmp
    have hne := List.pairwise_iff_getElem.mp hnamed.distinct k i hk' hlt (by omega)
    rw [List.getElem?_eq_getElem hlt, Option.some_inj] at hi
    rw [hi] at hne
    exact hne hcmp.symm

/-! ### Reading a file -/

/-- `readsb`, with the check of `fsinit`. -/
def readsb (blk : Block) : Option Superblock :=
  if blk.word 0 = FSMAGIC then
    some ⟨blk.word 1, blk.word 2, blk.word 3, blk.word 4, blk.word 6, blk.word 7⟩
  else
    none

lemma readsb_sbBlock : readsb sbBlock = some sb := by
  decide +kernel

/-- `namei`, and `readi` over the whole inode: the type of the file, its size, and its bytes. -/
def readFile (sb : Superblock) (cwd : Iref) (path : CStr) :
    FsM (Option (Int16 × ℕ × List UInt8)) := do
  match ← namei sb cwd path with
  | none => return none
  | some ip =>
    ilock sb ip
    let i := (← get).itable ip
    let bs ← readi sb ip (fun _ => true) 0 i.size.toNat
    return bs.map fun bs => (i.type, i.size.toNat, bs)

/-- An inode that is not in the table gets a free entry. -/
lemma wp_iget_new {Q : Iref → Fs.State → Prop}
    (hnew : ∀ jp, 0 < (s.itable jp).ref → (s.itable jp).inum ≠ n)
    (hfree : ∃ jp, (s.itable jp).ref = 0)
    (hQ : ∀ ip, (s.itable ip).ref = 0 →
      Q ip (s.setInode ip fun i => { i with inum := n, ref := 1, valid := false })) :
    wp F (iget n) Q s := by
  have hnone : (List.finRange NINODE).find?
      (fun ip => 0 < (s.itable ip).ref && (s.itable ip).inum == n) = none := by
    rw [List.find?_eq_none]
    intro jp _ hjp
    simp only [Bool.and_eq_true, decide_eq_true_eq, beq_iff_eq] at hjp
    exact hnew jp hjp.1 hjp.2
  simp only [iget, wp_bind, wp_pause, wp_get, hnone]
  split
  next ip hip => exact hQ ip (by simpa using List.find?_some hip)
  next hall =>
    obtain ⟨jp, hjp⟩ := hfree
    have := List.find?_eq_none.mp hall jp (List.mem_finRange jp)
    simp [hjp] at this

/-- An inode that nobody uses is read from disk and locked. -/
lemma wp_ilock_new {Q : PUnit → Fs.State → Prop} (hi : s.itable ip = ⟨d, ⟨n, 1, false, false⟩⟩)
    (htype : (s.dinode sb n).type ≠ 0)
    (hQ : Q ⟨⟩ (s.setInode ip fun _ => ⟨s.dinode sb n, ⟨n, 1, true, true⟩⟩)) :
    wp F (ilock sb ip) Q s := by
  simp only [ilock, acquiresleep, iread, wp_bind, wp_get, hi]
  rw [if_neg (by decide), wp_bind, wp_bind, wp_pause, wp_bind, wp_get, hi]
  simp only [Bool.false_eq_true, if_false, wp_setInode, wp_bind, wp_get, wp_bread, wp_brelse,
    State.setInode_itable_self, State.setInode_setInode, State.setInode_disk, Function.comp_def, hi]
  rw [← State.dinode, if_neg htype]
  simp only [State.setInode, hi] at hQ ⊢
  exact hQ

/-- The kernel has used the entry `dp` of the table only. -/
def withRoot (img : State) (dp : Iref) (i : Inode) : Fs.State :=
  { boot img with itable := Function.update (boot img).itable dp i }

/-- The kernel has used the entries `dp` and `ip` of the table only. -/
def withFile (img : State) (dp : Iref) (i : Inode) (ip : Iref) (j : Inode) : Fs.State :=
  { boot img with itable := Function.update (Function.update (boot img).itable dp i) ip j }

section Entries

variable {i j : Inode} {f : Inode → Inode}

lemma boot_setInode : (boot img).setInode dp f = withRoot img dp (f ((boot img).itable dp)) := rfl

lemma dinode_withRoot : (withRoot img dp i).dinode sb n = img.volume.inode n := rfl

lemma dinode_withFile : (withFile img dp i ip j).dinode sb n = img.volume.inode n := rfl

lemma withRoot_self : (withRoot img dp i).itable dp = i := Function.update_self ..

lemma withRoot_setInode : (withRoot img dp i).setInode dp f = withRoot img dp (f i) := by
  simp [withRoot, State.setInode]

lemma withRoot_setInode_of_ne (h : ip ≠ dp) :
    (withRoot img dp i).setInode ip f = withFile img dp i ip (f ((boot img).itable ip)) := by
  simp [withRoot, withFile, State.setInode, Function.update_of_ne h]

lemma withFile_file : (withFile img dp i ip j).itable ip = j := Function.update_self ..

lemma withFile_root (h : ip ≠ dp) : (withFile img dp i ip j).itable dp = i := by
  simp [withFile, Function.update_of_ne h.symm]

lemma withFile_setInode_file :
    (withFile img dp i ip j).setInode ip f = withFile img dp i ip (f j) := by
  simp [withFile, State.setInode]

lemma withFile_setInode_root (h : ip ≠ dp) :
    (withFile img dp i ip j).setInode dp f = withFile img dp (f i) ip j := by
  simp only [withFile, State.setInode, Function.update_of_ne h.symm, Function.update_self]
  rw [Function.update_comm h.symm, Function.update_idem, Function.update_comm h]

end Entries

lemma namexFrom_nil {fuel : ℕ} : namexFrom sb false fuel ip [] name = pure (some (ip, name)) := by
  cases fuel with
  | zero => rfl
  | succ fuel => rfl

/-- The lock and the reference to the root directory are given back. -/
lemma wp_iunlockput_root {R : PUnit → Fs.State → Prop} {j : Inode} (hne : ip ≠ dp)
    (hnlink : d.nlink ≠ 0) (hR : R ⟨⟩ (withFile img dp ⟨d, ⟨ROOTINO, 0, false, true⟩⟩ ip j)) :
    wp F (iunlockput sb dp) R (withFile img dp ⟨d, ⟨ROOTINO, 1, true, true⟩⟩ ip j) := by
  simp only [iunlockput, iunlock, wp_bind, wp_get, withFile_root hne]
  rw [if_neg (by simp)]
  simp only [releasesleep, iput, wp_bind, wp_pause, wp_setInode, withFile_setInode_root hne, wp_get,
    withFile_root hne]
  rw [if_neg fun hlast => hnlink hlast.2.2]
  simp only [wp_setInode, withFile_setInode_root hne]
  exact hR

/-- The root directory is looked at and forgotten, and the file referred to. -/
lemma Done.wp_namei {Q : Option Iref → Fs.State → Prop} (h : Done args img V)
    (hnamed : Named args) (hslash : ∀ arg ∈ args, slash ∉ arg.base)
    (hn : args.length + 1 < NINODES) {i : ℕ} (hi : args[i]? = some arg) {cwd : Iref}
    (hQ : ∀ dp ip, ip ≠ dp → Q (some ip) (withFile img dp
      ⟨img.volume.inode ROOTINO, ⟨ROOTINO, 0, false, true⟩⟩ ip
      ⟨Dinode.zero, ⟨i + 2, 1, false, false⟩⟩)) :
    wp F (namei sb cwd (slash :: arg.shortname)) Q (boot img) := by
  have hmem : arg ∈ args := List.mem_of_getElem? hi
  have hskip := skipelem_name (hnamed.nonempty arg hmem) fun hs =>
    hslash arg hmem (arg.shortname_sublist.subset hs)
  obtain ⟨hfind, hinum⟩ := h.finds hnamed hi hn
  have hlt : i < args.length := (List.getElem?_eq_some_iff.mp hi).1
  have hdir : (img.volume.inode ROOTINO).type = T_DIR := by
    obtain ⟨img₀, hbuilt⟩ := h.built
    rw [h.inode_root]
    exact hbuilt.root.1
  have hnlink : (img.volume.inode ROOTINO).nlink ≠ 0 := by
    obtain ⟨img₀, hbuilt⟩ := h.built
    have hone := hbuilt.nlink ROOTINO (Nat.lt_add_left _ (by decide)) hbuilt.allocated_root.2
    rw [h.inode_root]
    show (V.files L ROOTINO).nlink ≠ 0
    rw [hone]
    decide
  simp only [namei, namex, wp_bind]
  rw [if_pos (List.head?_cons : (slash :: arg.shortname).head? = _), wp_bind]
  apply wp_iget_new
  · exact fun jp hpos => absurd hpos (lt_irrefl 0)
  · exact ⟨0, rfl⟩
  intro dp _
  rw [boot_setInode, List.length_cons, namexFrom, hskip]
  simp only [wp_bind]
  apply wp_ilock_new withRoot_self
  · show (img.volume.inode ROOTINO).type ≠ 0
    rw [hdir]
    decide
  rw [withRoot_setInode, dinode_withRoot]
  set root : Inode := ⟨img.volume.inode ROOTINO, ⟨ROOTINO, 1, true, true⟩⟩ with hroot
  have htype : ¬root.type ≠ T_DIR := not_not.mpr hdir
  have hat : AtRoot img dp (withRoot img dp root) := ⟨rfl, congrArg Inode.toDinode withRoot_self⟩
  rw [wp_bind, wp_get, withRoot_self, if_neg htype, if_neg (by simp), wp_bind, dirlookup, wp_bind,
    wp_get, withRoot_self, if_neg htype]
  apply hat.wp_dirlookupFrom (k := 0) h hn hfind (Nat.zero_le _)
  · have hsize := hat.size h hn
    rw [withRoot_self] at hsize
    rw [hsize, Dirent.size, rootSize]
    simp only [BSIZE]
    omega
  rw [hinum]
  apply wp_iget_new
  · intro jp hpos
    rcases eq_or_ne jp dp with rfl | hjp
    · rw [withRoot_self]
      simp [hroot, ROOTINO]
    · simp only [withRoot, Function.update_of_ne hjp] at hpos
      exact absurd hpos (lt_irrefl 0)
  · have : Nontrivial Iref := Fin.nontrivial_iff_two_le.mpr (by decide)
    obtain ⟨jp, hjp⟩ := exists_ne dp
    refine ⟨jp, ?_⟩
    simp only [withRoot, Function.update_of_ne hjp]
    rfl
  intro ip hip
  have hne : ip ≠ dp := by
    rintro rfl
    rw [withRoot_self] at hip
    cases hip
  rw [withRoot_setInode_of_ne hne]
  simp only [wp_bind]
  apply wp_iunlockput_root hne hnlink
  rw [namexFrom_nil]
  exact hQ dp ip hne

/-- The file is in memory; the inode of the root directory is only on disk, and differs from that of
`V`. -/
lemma Done.loaded (h : Done args img V) (hne : ip ≠ dp) (hn : V.Allocated L n)
    (hroot : n ≠ ROOTINO) :
    Loaded L {dp} ip n (withFile img dp ⟨d, ⟨ROOTINO, 0, false, true⟩⟩ ip
      ⟨img.volume.inode n, ⟨n, 1, true, true⟩⟩) V := by
  obtain ⟨img₀, hbuilt⟩ := h.built
  set s := withFile img dp ⟨d, ⟨ROOTINO, 0, false, true⟩⟩ ip
    ⟨img.volume.inode n, ⟨n, 1, true, true⟩⟩ with hs
  have hother : ∀ jp, jp ≠ ip → (s.itable jp).ref = 0 ∧ (s.itable jp).locked = false ∧
      (s.itable jp).inum < NINODES := by
    intro jp hjp
    rcases eq_or_ne jp dp with rfl | hjp'
    · rw [hs, withFile_root hne]
      exact ⟨rfl, rfl, (by decide : ROOTINO < NINODES)⟩
    · simp only [hs, withFile, Function.update_of_ne hjp, Function.update_of_ne hjp']
      exact ⟨rfl, rfl, (by decide : 0 < NINODES)⟩
  have hself : s.itable ip = ⟨img.volume.inode n, ⟨n, 1, true, true⟩⟩ := withFile_file
  have heq : ∀ jp, 0 < (s.itable jp).ref → jp = ip := by
    intro jp hpos
    by_contra hjp
    rw [(hother jp hjp).1] at hpos
    exact lt_irrefl 0 hpos
  refine ⟨⟨?_, ?_, ?_, ?_, ?_, ?_, ?_, ?_⟩, hbuilt.ok, ?_, ?_, hn⟩
  · intro b
    constructor
    · intro hb
      have hlt := hbuilt.ok.used_lt hb
      exact ⟨hlt, (h.marked_iff (hlt.trans (by decide))).mpr hb⟩
    · rintro ⟨hlt, hb⟩
      exact (h.marked_iff (hlt.trans (by decide))).mp hb
  · exact h.data
  · intro m hm hdisk
    have hm' := hdisk dp rfl
    rw [hs, withFile_root hne] at hm'
    exact h.inode m hm hm'.symm
  · intro jp hlive
    obtain rfl := heq jp hlive.1
    rw [hself]
    exact h.inode_volume hn.1 hroot
  · intro jp hlive _
    obtain rfl := heq jp hlive.1
    rw [hself]
    exact hn.2
  · intro jp
    rcases eq_or_ne jp ip with rfl | hjp
    · rw [hself]
      exact hn.1
    · exact (hother jp hjp).2.2
  · intro jp jp' hpos hpos' _
    rw [heq jp hpos, heq jp' hpos']
  · intro jp hlocked
    rcases eq_or_ne jp ip with rfl | hjp
    · rw [hself]
      exact ⟨Nat.one_pos, rfl⟩
    · rw [(hother jp hjp).2.1] at hlocked
      cases hlocked
  · rw [hself]
    exact ⟨Nat.one_pos, rfl⟩
  · rw [hself]

/-- Each file is found by its name and has the content that `mkfs` was given. -/
lemma Done.wp_readFile {Q : Option (Int16 × ℕ × List UInt8) → Fs.State → Prop} (h : Done args img V)
    (hnamed : Named args) (hslash : ∀ arg ∈ args, slash ∉ arg.base) (hn : args.length + 1 < NINODES)
    (harg : arg ∈ args) {cwd : Iref}
    (hQ : ∀ s, Q (some (T_FILE, arg.content.length, arg.content)) s) :
    wp F (readFile sb cwd (slash :: arg.shortname)) Q (boot img) := by
  obtain ⟨i, hi⟩ := List.getElem?_of_mem harg
  obtain ⟨img₀, hbuilt⟩ := h.built
  have hlt : i < args.length := (List.getElem?_eq_some_iff.mp hi).1
  have hroot : i + 2 ≠ ROOTINO := by simp [ROOTINO]
  have hi' : (args.map Arg.content)[i]? = some arg.content := by simp [hi]
  obtain ⟨htype, hbytes⟩ := hbuilt.file i _ hi'
  have hsize : (V.inode (i + 2)).size.toNat = arg.content.length := hbuilt.file_size hi'
  have halloc : V.Allocated L (i + 2) := by
    refine ⟨?_, ?_⟩
    · show i + 2 < NINODES
      omega
    · show (V.files L (i + 2)).type ≠ 0
      rw [htype]
      decide
  have hinode := h.inode_volume halloc.1 hroot
  rw [readFile, wp_bind]
  apply h.wp_namei hnamed hslash hn hi
  intro dp ip hne
  simp only [wp_bind]
  apply wp_ilock_new withFile_file
  · rw [dinode_withFile, hinode]
    exact halloc.2
  rw [withFile_setInode_file, dinode_withFile, wp_bind, wp_get, withFile_file, wp_bind]
  apply (h.loaded hne halloc hroot).wp_readi (UInt32.toNat_lt _)
  rintro r (rfl | ⟨-, t, -, ht⟩)
  · have hread : (V.files L (i + 2)).read 0 (img.volume.inode (i + 2)).size.toNat =
      arg.content := by
      rw [hinode, hsize, File.read_eq, if_neg (by omega), hbytes, List.drop_zero, List.take_length]
    rw [wp_pure, hread, Option.map_some, hinode, hsize]
    have : (V.inode (i + 2)).type = T_FILE := htype
    rw [this]
    exact hQ _
  · cases ht

/-- What `mkfs` writes, the kernel reads: the super block, and each file under its name. -/
theorem mkfs_readFile (hn : args.length + 1 < NINODES) (hfits : Fits args) (hnamed : Named args) :
    ∃ img sb, mkfs args = some img ∧ readsb (img.disk 1) = some sb ∧
      ∀ arg ∈ args, ∀ cwd, ∃ s, (readFile sb cwd (slash :: arg.shortname)).run (boot img)
        = .ok (some (T_FILE, arg.content.length, arg.content), s) := by
  obtain ⟨img, V, hmkfs, hdone⟩ := exists_mkfs hn hfits
  refine ⟨img, sb, hmkfs, ?_, ?_⟩
  · rw [hdone.superblock]
    exact readsb_sbBlock
  intro arg harg cwd
  have hwp : wp (fun _ => False) (readFile sb cwd (slash :: arg.shortname))
      (fun r _ => r = some (T_FILE, arg.content.length, arg.content)) (boot img) :=
    hdone.wp_readFile hnamed hfits.base hn harg fun _ => rfl
  cases hrun : (readFile sb cwd (slash :: arg.shortname)).run (boot img) with
  | error e => exact (hwp.fails hrun).elim
  | ok r =>
    obtain ⟨a, s⟩ := r
    obtain rfl := hwp.returns hrun
    exact ⟨s, rfl⟩

/-- A file `a` with three bytes, which two reads deliver. -/
def smallFile : Arg where
  path := user ++ [95, 97]
  reads := some [[1, 2], [3]]

/-- The kernel reads these bytes from `/a`. -/
theorem mkfs_readFile_smallFile : ∃ img sb, mkfs [smallFile] = some img ∧
    readsb (img.disk 1) = some sb ∧
    ∃ s, (readFile sb 0 [slash, 97]).run (boot img) = .ok (some (T_FILE, 3, [1, 2, 3]), s) := by
  have hfits : Fits [smallFile] := by
    refine ⟨?_, ?_, ?_, ?_⟩ <;> decide
  have hnamed : Named [smallFile] := by
    refine ⟨?_, ?_, ?_, List.pairwise_singleton _ _⟩ <;> decide
  obtain ⟨img, sb, hmkfs, hsb, hread⟩ := mkfs_readFile (by decide) hfits hnamed
  exact ⟨img, sb, hmkfs, hsb, hread smallFile (List.mem_singleton_self _) 0⟩

end Xv6.Mkfs
