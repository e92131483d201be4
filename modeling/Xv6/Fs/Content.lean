import Mathlib.Data.List.TakeWhile
import Xv6.Fs.Blocks

/-!
# The content of a file

`readi` and `writei` on their own: what they deliver and what they do to the files.
-/

namespace Xv6.Fs

open Core Coroutine

variable {L : Layout} {F : Halt → Prop} {D : Set Iref} {s : State} {V : Volume} {ip : Iref}
  {n off tot m : ℕ} {d : Demand}

/-! ### readi -/

lemma div_BSIZE_lt (h : off < MAXFILE * BSIZE) : off / BSIZE < MAXFILE :=
  (Nat.div_lt_iff_lt_mul (by decide)).mpr h

/-- Places in the same block. -/
lemma add_div_BSIZE {t : ℕ} (h : off % BSIZE + t < BSIZE) :
    (off + t) / BSIZE = off / BSIZE ∧ (off + t) % BSIZE = off % BSIZE + t := by
  simp only [BSIZE] at h ⊢
  omega

variable {Q : Option (List UInt8) → State → Prop}

lemma Loaded.wp_readLoop {dst : ℕ → Bool} {fuel : ℕ}
    (h : Loaded L D ip n s V) (hfuel : m - tot ≤ fuel)
    (hoff : off + (m - tot) ≤ (V.inode n).size.toNat)
    (hQ : ∀ r, (r = some ((List.range (m - tot)).map fun t => V.content L n (off + t)) ∨
      r = none ∧ ∃ t < m, dst t = false) → Q r s) :
    wp F (readLoop L.toSuperblock ip dst m fuel tot off) Q s := by
  induction fuel generalizing tot off Q with
  | zero =>
    apply hQ
    rw [Nat.le_zero.mp hfuel]
    exact .inl rfl
  | succ fuel ih =>
    unfold readLoop
    apply wp_ite
    swap
    · intro hge
      apply hQ
      rw [Nat.sub_eq_zero_of_le (Nat.not_lt.mp hge)]
      exact .inl rfl
    intro hlt
    have hsize := h.ok.size_le h.allocated
    have hmapped : V.ref L (n, fileSlot (off / BSIZE)) ≠ none := by
      apply h.ok.mapped h.allocated
      have := Nat.div_mul_le_self off BSIZE
      omega
    obtain ⟨b, hb⟩ := Option.ne_none_iff_exists'.mp hmapped
    rw [wp_bind]
    apply h.wp_bmap_of_ref (div_BSIZE_lt (by omega)) hb
    have hdata : s.disk b = V.data b := h.rep.data b (h.ok.le_of_ref hb) (h.ok.lt_of_ref hb)
    simp only [wp_bind, wp_bread, wp_brelse, hdata]
    set c := min (m - tot) (BSIZE - off % BSIZE) with hc
    have hmod : off % BSIZE < BSIZE := Nat.mod_lt _ (by decide)
    apply wp_ite
    · intro _
      rw [wp_bind]
      apply ih (by omega) (by omega)
      rintro r (rfl | ⟨rfl, hr⟩)
      · apply hQ
        left
        have hsplit : m - tot = c + (m - (tot + c)) := by omega
        rw [hsplit, List.range_add, List.map_append, List.map_map, Option.map_some,
          Option.some.injEq]
        congr 1
        · apply List.map_congr_left
          intro t ht
          rw [List.mem_range] at ht
          have hlt : off % BSIZE + t < BSIZE := by omega
          obtain ⟨hdiv, hmod'⟩ := add_div_BSIZE hlt
          rw [Volume.content_of_ref (by rw [hdiv]; exact hb), hmod']
        · apply List.map_congr_left
          intro t _
          rw [Function.comp_apply, Nat.add_assoc]
      · exact hQ _ (.inr ⟨rfl, hr⟩)
    · intro hdst
      apply hQ
      right
      simp only [List.all_eq_true, List.mem_range, not_forall, Bool.not_eq_true] at hdst
      obtain ⟨t, ht, hfalse⟩ := hdst
      exact ⟨rfl, tot + t, by omega, hfalse⟩

/-- The size in memory is the size of the file. -/
lemma Loaded.size_eq (h : Loaded L D ip n s V) :
    (s.itable ip).size.toNat = (V.files L n).size := by
  rw [h.inode]
  rfl

lemma Volume.files_size_lt : (V.files L n).size < 2 ^ 32 := UInt32.toNat_lt _

/-- `readi` changes nothing and delivers the bytes of the file, unless the destination is not
mapped. -/
lemma Loaded.wp_readi {dst : ℕ → Bool}
    (h : Loaded L D ip n s V) (hm : m < 2 ^ 32)
    (hQ : ∀ r, (r = some ((V.files L n).read off m) ∨ r = none ∧ ∃ t < m, dst t = false) →
      Q r s) :
    wp F (readi L.toSuperblock ip dst off m) Q s := by
  have hlt := Volume.files_size_lt (L := L) (V := V) (n := n)
  simp only [readi, wp_bind, wp_get, h.size_eq]
  set f := V.files L n with hf
  apply wp_ite
  · intro hout
    apply hQ
    rw [File.read, if_pos hout]
    exact .inl rfl
  · intro hin
    have hnowrap : (off + m) % 2 ^ 32 = off + m := by omega
    have hcut : (if f.size < (off + m) % 2 ^ 32 then f.size - off else m)
        = min m (f.size - off) := by
      split <;> omega
    rw [hcut]
    apply h.wp_readLoop (Nat.sub_le _ _)
    · show off + (min m (f.size - off) - 0) ≤ f.size
      omega
    · rintro r (rfl | ⟨rfl, t, ht, hdst⟩)
      · apply hQ
        rw [File.read, if_neg hin]
        exact .inl rfl
      · exact hQ _ (.inr ⟨rfl, t, by omega, hdst⟩)

/-! ### writei -/

/-- The write may give the file its `bn`-th block, and the indirect block for it. -/
def Demand.Covers (d : Demand) (bn : ℕ) : Prop :=
  fileSlot bn ∈ d.slots ∧ (NDIRECT ≤ bn → .indirect ∈ d.slots)

/-- Bytes are copied into one block of the file, which gets the block if it has none. -/
lemma Loaded.wp_writeBlock {Q : ℕ → State → Prop} {c : ℕ} {g : ℕ → UInt8}
    (hsup : Supply L F d V s) (h : Loaded L {ip} ip d.inum s V) (hoff : off < MAXFILE * BSIZE)
    (hc : off % BSIZE + c ≤ BSIZE) (hslot : d.Covers (off / BSIZE))
    (hQ : ∀ b s' V', s'.entries = s.entries → Loaded L {ip} ip d.inum s' V' →
      V'.files L = Function.update (V.files L) d.inum ((V.files L d.inum).patch off c g) →
      (∀ bn, V.ref L (d.inum, fileSlot bn) ≠ none ∨ bn = off / BSIZE →
        V'.ref L (d.inum, fileSlot bn) ≠ none) →
      V'.ref L (d.inum, fileSlot (off / BSIZE)) = some b → Supply L F d V' s' → Q b s') :
    wp F (writeBlock L.toSuperblock ip off c g) Q s := by
  simp only [writeBlock, wp_bind]
  apply h.wp_bmap hsup (div_BSIZE_lt hoff) hslot.1 hslot.2
  intro b s₁ V₁ hs₁ h₁ hgrows hb hsup₁
  have hfiles : (V₁.write b ((V₁.data b).patch (off % BSIZE) c g)).files L
      = Function.update (V.files L) d.inum ((V.files L d.inum).patch off c g) := by
    rw [Volume.files_patch h₁.ok hb hc, hgrows.files]
  have hrep := h₁.rep.setData (h₁.ok.le_of_ref hb) (h₁.ok.lt_of_ref hb)
    (·.patch (off % BSIZE) c g)
  have hentries : (s₁.setData b (·.patch (off % BSIZE) c g)).entries = s.entries := hs₁
  have href : (V₁.write b ((V₁.data b).patch (off % BSIZE) c g)).ref L = V₁.ref L :=
    Volume.ref_write h₁.ok hb
  simp only [wp_bind, wp_bread, wp_setData, wp_pure]
  refine hQ b _ _ hentries (h.of_entries hentries hrep (h₁.ok.write hb) h₁.allocated)
    hfiles ?_ ?_ ?_
  · intro bn hbn
    rw [href]
    rcases hbn with hbn | rfl
    · exact hgrows.mapped hbn
    · simp [hb]
  · rw [href, hb]
  · exact hsup₁.imp_right fun hs => hs.congr hs.logged (fun slot => by rw [href]) rfl

variable {src : Source}

namespace Source

lemma copied_le (src : Source) (k m : ℕ) : src.copied k m ≤ m := by
  have h := (List.takeWhile_prefix (l := List.range m) fun t => (src (k + t)).isSome).length_le
  rwa [List.length_range] at h

/-- The next byte counts if all the bytes before it do. -/
lemma copied_succ (src : Source) (k m : ℕ) : src.copied k (m + 1)
    = if src.copied k m = m ∧ (src (k + m)).isSome then m + 1 else src.copied k m := by
  rw [copied, copied, List.range_succ, List.takeWhile_append, List.length_range]
  by_cases hall : ((List.range m).takeWhile fun t => (src (k + t)).isSome).length = m
  · rw [if_pos hall, List.length_append, List.length_range, hall, List.takeWhile_cons]
    by_cases hm : (src (k + m)).isSome
    · rw [if_pos hm, if_pos ⟨rfl, hm⟩]
      rfl
    · rw [if_neg hm, if_neg fun h => hm h.2]
      rfl
  · rw [if_neg hall, if_neg fun h => hall h.1]

/-- The bytes that are copied can be read. -/
lemma isSome_of_lt_copied {k m t : ℕ} (ht : t < src.copied k m) : (src (k + t)).isSome := by
  induction m with
  | zero => exact absurd (ht.trans_le (src.copied_le k 0)) (Nat.not_lt_zero t)
  | succ m ih =>
    rw [copied_succ] at ht
    split at ht
    · next hall =>
      rcases Nat.lt_succ_iff_lt_or_eq.mp ht with hlt | rfl
      · exact ih (by omega)
      · exact hall.2
    · exact ih ht

/-- The copy stops at a byte that cannot be read. -/
lemma eq_none_of_copied_lt {k m : ℕ} (h : src.copied k m < m) :
    src (k + src.copied k m) = none := by
  induction m with
  | zero => exact absurd h (Nat.not_lt_zero _)
  | succ m ih =>
    have hle := src.copied_le k m
    rw [copied_succ] at h ⊢
    split at h
    · exact absurd h (lt_irrefl _)
    · next hstop =>
      rw [if_neg hstop]
      rcases hle.lt_or_eq with hlt | heq
      · exact ih hlt
      · rw [heq]
        exact Option.not_isSome_iff_eq_none.mp fun hm => hstop ⟨heq, hm⟩

lemma bytes_add (src : Source) (k m : ℕ) : (fun t => src.bytes k (m + t)) = src.bytes (k + m) := by
  funext t
  rw [bytes, bytes, Nat.add_assoc]

end Source

/-- The file `n` has a block for each byte before `e`. -/
def Volume.MappedTo (L : Layout) (V : Volume) (n e : ℕ) : Prop :=
  ∀ bn, bn * BSIZE < e → V.ref L (n, fileSlot bn) ≠ none

/-- From offset `off` on, where `tot` of `m` bytes are written, `c` bytes are copied and the count
goes up to `tot'`: all the bytes are, or those before the first one that cannot be read, and those
of the blocks before its block count. -/
structure Source.Stops (src : Source) (tot off m tot' c : ℕ) : Prop where
  readable : ∀ t < c, (src (tot + t)).isSome
  stop : tot' = m ∧ tot + c = m ∨ tot + c < m ∧ src (tot + c) = none ∧
    off + (tot' - tot) = max off ((off + c) / BSIZE * BSIZE)

/-- All the bytes are written if all can be read. -/
lemma Source.Stops.all {tot' c : ℕ} (h : src.Stops tot off m tot' c)
    (hsrc : ∀ t < m, (src t).isSome) : tot' = m ∧ tot + c = m := by
  rcases h.stop with hall | ⟨hlt, hnone, -⟩
  · exact hall
  · have hsome := hsrc _ hlt
    rw [hnone] at hsome
    cases hsome

/-- From the volume `V` on, where `tot` of `m` bytes are written, the rounds of `writei` have
written up to `tot'` bytes in full blocks, and `c` bytes altogether. -/
structure Written (L : Layout) (n m : ℕ) (src : Source) (tot off : ℕ) (V : Volume) (tot' c : ℕ)
    (V' : Volume) : Prop where
  le : tot ≤ tot'
  le_count : tot' ≤ m
  files : V'.files L = Function.update (V.files L) n ((V.files L n).patch off c (src.bytes tot))
  mapped : V'.MappedTo L n (max (V.files L n).size (off + (tot' - tot)))
  stops : src.Stops tot off m tot' c

namespace Written

variable {tot' c c' : ℕ} {V₁ V' : Volume}

lemma refl (hmapped : V.MappedTo L n (max (V.files L n).size off)) :
    Written L n m src m off V m 0 V where
  le := le_rfl
  le_count := le_rfl
  files := by rw [File.patch_zero, Function.update_eq_self]
  mapped := by rwa [Nat.sub_self]
  stops := ⟨fun t ht => absurd ht (Nat.not_lt_zero t), .inl ⟨rfl, rfl⟩⟩

/-- One round, which fills its block unless it is the last, and the rounds after it. -/
lemma cons (hread : ∀ t < c, (src (tot + t)).isSome)
    (hfill : tot + c = m ∨ (off + c) % BSIZE = 0)
    (hfiles : V₁.files L = Function.update (V.files L) n
      ((V.files L n).patch off c (src.bytes tot)))
    (h : Written L n m src (tot + c) (off + c) V₁ tot' c' V') :
    Written L n m src tot off V tot' (c + c') V' := by
  have hfile := congrFun hfiles n
  rw [Function.update_self] at hfile
  have hle := h.le
  have hpos : off + c + (tot' - (tot + c)) = off + (tot' - tot) := by omega
  refine ⟨by omega, h.le_count, ?_, ?_, ?_⟩
  · rw [h.files, hfile, hfiles, Function.update_idem, ← Source.bytes_add, File.patch_patch]
  · have hmapped := h.mapped
    rw [hpos, hfile] at hmapped
    exact hmapped
  · refine ⟨?_, ?_⟩
    · intro t ht
      by_cases htc : t < c
      · exact hread t htc
      · have hsome := h.stops.readable (t - c) (by omega)
        rwa [show tot + c + (t - c) = tot + t by omega] at hsome
    · have hcount := h.le_count
      rcases h.stops.stop with ⟨hm, hc⟩ | ⟨hlt, hnone, hoff⟩
      · exact .inl ⟨hm, by omega⟩
      · rw [Nat.add_assoc] at hnone
        refine .inr ⟨by omega, hnone, ?_⟩
        simp only [BSIZE] at hfill hoff ⊢
        omega

end Written

/-- The rounds of `writei`. -/
lemma Loaded.wp_writeLoop {Q : ℕ × ℕ → State → Prop} {fuel : ℕ}
    (hsup : Supply L F d V s) (h : Loaded L {ip} ip d.inum s V) (hfuel : m - tot ≤ fuel)
    (htot : tot ≤ m) (hoff : off + (m - tot) ≤ MAXFILE * BSIZE)
    (hslots : ∀ bn, off / BSIZE ≤ bn → bn * BSIZE < off + (m - tot) → d.Covers bn)
    (hmapped : V.MappedTo L d.inum (max (V.files L d.inum).size off))
    (hQ : ∀ tot' c s' V', s'.entries = s.entries → Loaded L {ip} ip d.inum s' V' →
      Written L d.inum m src tot off V tot' c V' → Supply L F d V' s' →
      Q (tot', off + (tot' - tot)) s') :
    wp F (writeLoop L.toSuperblock ip src m fuel tot off) Q s := by
  induction fuel generalizing tot off s V Q with
  | zero =>
    obtain rfl : tot = m := by omega
    show Q (tot, off) s
    simpa using hQ tot 0 s V rfl h (.refl hmapped) hsup
  | succ fuel ih =>
    unfold writeLoop
    apply wp_ite
    swap
    · intro hge
      obtain rfl : tot = m := by omega
      simpa using hQ tot 0 s V rfl h (.refl hmapped) hsup
    intro hlt
    set c := min (m - tot) (BSIZE - off % BSIZE) with hc
    have hmod : off % BSIZE < BSIZE := Nat.mod_lt _ (by decide)
    have hdiv := Nat.div_mul_le_self off BSIZE
    have hle := src.copied_le tot c
    rw [wp_bind]
    apply h.wp_writeBlock hsup (by omega) (by omega) (hslots _ le_rfl (by omega))
    intro b s₁ V₁ hs₁ h₁ hfiles hmapped₁ hb hsup₁
    have hfile := congrFun hfiles d.inum
    rw [Function.update_self] at hfile
    apply wp_ite
    · intro hshort
      have hwritten : Written L d.inum m src tot off V tot (src.copied tot c) V₁ := by
        refine ⟨le_rfl, htot, hfiles, ?_, fun t ht => Source.isSome_of_lt_copied ht, .inr ?_⟩
        · rw [Nat.sub_self, Nat.add_zero]
          exact fun bn hbn => hmapped₁ bn (.inl (hmapped bn hbn))
        · refine ⟨by omega, Source.eq_none_of_copied_lt hshort, ?_⟩
          simp only [BSIZE] at hc ⊢
          omega
      simp only [wp_bind, wp_brelse, wp_pure]
      simpa using hQ tot (src.copied tot c) s₁ V₁ hs₁ h₁ hwritten hsup₁
    · intro hfull
      have hcopied : src.copied tot c = c := by omega
      rw [hcopied] at hfiles hfile
      simp only [wp_bind]
      apply hsup₁.wp_logWrite fun _ => Volume.mem_touched (hslots _ le_rfl (by omega)).1 hb
      intro lh hsup₂
      simp only [wp_bind, wp_brelse]
      apply ih hsup₂ (h₁.setLh lh) (by omega) (by omega) (by omega)
      · intro bn hbn hbn'
        exact hslots bn ((Nat.div_le_div_right (Nat.le_add_right off c)).trans hbn) (by omega)
      · rw [hfile]
        intro bn hbn
        apply hmapped₁
        by_cases hbn' : bn * BSIZE < max (V.files L d.inum).size off
        · exact .inl (hmapped bn hbn')
        · right
          simp only [BSIZE, File.patch] at hbn hbn' hc hmod ⊢
          omega
      · intro tot' c' s' V' hs' h' hwritten hsup'
        have hle := hwritten.le
        rw [show off + c + (tot' - (tot + c)) = off + (tot' - tot) by omega]
        refine hQ tot' (c + c') s' V' (hs'.trans hs₁) h' (hwritten.cons ?_ ?_ hfiles) hsup'
        · exact fun t ht => Source.isSome_of_lt_copied (hcopied.symm ▸ ht)
        · simp only [BSIZE] at hc ⊢
          omega

/-- The size of a file becomes `e` if it was less. -/
def Dinode.grow (d : Dinode) (e : ℕ) : Dinode :=
  { d with size := if d.size.toNat < e then UInt32.ofNat e else d.size }

lemma Dinode.grow_size {d : Dinode} {e : ℕ} (he : e < 2 ^ 32) :
    (d.grow e).size.toNat = max d.size.toNat e := by
  unfold grow
  split
  · next hlt => rw [UInt32.toNat_ofNat_of_lt' he, max_eq_right hlt.le]
  · next hlt => rw [max_eq_left (Nat.not_lt.mp hlt)]

/-- The size of a file grows over blocks that the file has. -/
lemma Loaded.grow {e : ℕ} (h : Loaded L {ip} ip n s V) (he : e ≤ MAXFILE * BSIZE)
    (hmapped : V.MappedTo L n (max (V.files L n).size e)) :
    Loaded L {ip} ip n (s.setInode ip fun i => { i with toDinode := i.grow e })
      (V.setInode n ((V.inode n).grow e)) := by
  have he32 : e < 2 ^ 32 := lt_of_le_of_lt he (by decide)
  have hrep := h.rep.setFields (g := fun i => { i with toDinode := i.grow e }) h.live rfl rfl rfl
  rw [h.inum] at hrep
  refine h.of_entries (State.entries_setInode ?_) ?_ ?_ ?_
  · exact fun _ => rfl
  · rw [← h.inode]
    exact hrep
  · refine h.ok.setInode rfl (fun _ _ => rfl) ?_
    intro _
    rw [Dinode.grow_size he32]
    exact ⟨max_le (h.ok.size_le h.allocated) he, hmapped⟩
  · refine ⟨h.allocated.1, ?_⟩
    rw [Volume.setInode_inode_self]
    exact h.allocated.2

lemma Volume.files_grow {e : ℕ} (he : e < 2 ^ 32) :
    (V.setInode n ((V.inode n).grow e)).files L
      = Function.update (V.files L) n { V.files L n with size := max (V.files L n).size e } := by
  have href : (V.setInode n ((V.inode n).grow e)).ref L = V.ref L :=
    ref_setInode rfl fun _ _ => rfl
  rw [files_setInode href, Dinode.grow_size he]
  rfl

/-- `writei` refuses to write behind the end of the file or beyond the maximum size. -/
def File.Refuses (f : File) (off m : ℕ) : Prop :=
  (f.size < off ∨ (off + m) % 2 ^ 32 < off) ∨ MAXFILE * BSIZE < (off + m) % 2 ^ 32

instance (f : File) (off m : ℕ) : Decidable (f.Refuses off m) :=
  inferInstanceAs (Decidable (_ ∨ _))

variable {Q : ℤ → State → Prop}

/-- `writei` returns -1 and changes nothing, or the number `tot` of bytes written; it writes `c`
bytes in fact. -/
lemma Loaded.wp_writei_of_supply (hsup : Supply L F d V s)
    (h : Loaded L ∅ ip d.inum s V) (hm : m < 2 ^ 32)
    (hslots : ∀ bn, off / BSIZE ≤ bn → bn * BSIZE < off + m → d.Covers bn)
    (hrefuse : (V.files L d.inum).Refuses off m → Q (-1) s)
    (hQ : ∀ (tot c : ℕ) (s' : State) (V' : Volume), ¬(V.files L d.inum).Refuses off m →
      s'.entries = s.entries → Loaded L ∅ ip d.inum s' V' → tot ≤ m → src.Stops 0 off m tot c →
      V'.files L = Function.update (V.files L) d.inum
        ((V.files L d.inum).write off tot c (src.bytes 0)) →
      Exhaustible F ∨ Logged d (V'.touched L d) s' → Q tot s') :
    wp F (writei L.toSuperblock ip src off m) Q s := by
  have hlt := Volume.files_size_lt (L := L) (V := V) (n := d.inum)
  simp only [writei, wp_bind, wp_get, h.size_eq]
  apply wp_ite
  · intro hout
    exact hrefuse (.inl hout)
  intro hin
  apply wp_ite
  · intro hbig
    exact hrefuse (.inr hbig)
  intro hsmall
  have haccept : ¬(V.files L d.inum).Refuses off m := by
    rintro (hout | hbig)
    · exact hin hout
    · exact hsmall hbig
  have hnowrap : (off + m) % 2 ^ 32 = off + m := by omega
  rw [wp_bind]
  apply (h.mono (Set.empty_subset {ip})).wp_writeLoop hsup (Nat.sub_le _ _) (Nat.zero_le _)
    (by omega) (by simpa using hslots)
  · intro bn hbn
    apply h.ok.mapped h.allocated
    show bn * BSIZE < (V.files L d.inum).size
    omega
  intro tot c s₁ V₁ hs₁ h₁ hwritten hsup₁
  have hle := hwritten.le_count
  have hfile := congrFun hwritten.files d.inum
  rw [Function.update_self] at hfile
  have hgrow : Loaded L {ip} ip d.inum
      (s₁.setInode ip fun i => { i with toDinode := i.grow (off + (tot - 0)) })
      (V₁.setInode d.inum ((V₁.inode d.inum).grow (off + (tot - 0)))) := by
    apply h₁.grow (by omega)
    rw [hfile]
    exact hwritten.mapped
  have hsup₂ : Supply L F d (V₁.setInode d.inum ((V₁.inode d.inum).grow (off + (tot - 0))))
      (s₁.setInode ip fun i => { i with toDinode := i.grow (off + (tot - 0)) }) := by
    have href : (V₁.setInode d.inum ((V₁.inode d.inum).grow (off + (tot - 0)))).ref L = V₁.ref L :=
      Volume.ref_setInode rfl fun _ _ => rfl
    exact hsup₁.imp_right fun hs => hs.congr hs.logged (fun slot => congrFun href _) rfl
  simp only [wp_bind, wp_setInode]
  apply hgrow.wp_iupdate_of_supply hsup₂
  intro s' hs' h' hlogged
  refine hQ tot c s' _ haccept ?_ h' hle hwritten.stops ?_ hlogged
  · rw [State.entries_congr hs', State.entries_setInode, hs₁]
    exact fun _ => rfl
  · rw [Volume.files_grow (by omega), hwritten.files, Function.update_idem, Function.update_self]
    rfl

lemma Loaded.wp_writei (hF : Exhaustible F)
    (h : Loaded L ∅ ip n s V) (hm : m < 2 ^ 32)
    (hrefuse : (V.files L n).Refuses off m → Q (-1) s)
    (hQ : ∀ (tot c : ℕ) (s' : State) (V' : Volume), ¬(V.files L n).Refuses off m →
      s'.entries = s.entries → Loaded L ∅ ip n s' V' → tot ≤ m → src.Stops 0 off m tot c →
      V'.files L = Function.update (V.files L) n ((V.files L n).write off tot c (src.bytes 0)) →
      Q tot s') :
    wp F (writei L.toSuperblock ip src off m) Q s := by
  apply Loaded.wp_writei_of_supply
    (d := ⟨n, insert .indirect ((Finset.range (off + m)).image fileSlot), [], 0⟩) (.inl hF) h hm
  · intro bn _ hbn
    have hlt : bn < off + m := lt_of_le_of_lt (Nat.le_mul_of_pos_right bn (by decide)) hbn
    exact ⟨Finset.mem_insert_of_mem (Finset.mem_image_of_mem _ (Finset.mem_range.mpr hlt)),
      fun _ => Finset.mem_insert_self _ _⟩
  · exact hrefuse
  · intro tot c s' V' haccept hs' h' hle hstops hfiles _
    exact hQ tot c s' V' haccept hs' h' hle hstops hfiles

end Xv6.Fs
