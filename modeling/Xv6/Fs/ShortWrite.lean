import Xv6.Fs.Refinement

/-!
# Short writes

What a reader sees after `writei` has returned a number of bytes, if the memory that it copies from
is mapped in part only. The bytes go directly into the cached blocks. Those of the block in which
the copy stops are there too, but they do not count.
-/

namespace Xv6.Fs

open Core Coroutine

namespace File

variable {f g : File}

/-- Where a copy of `m` bytes to `off` stops early, what it copies to the block in which it stops is
in the file already, as far as the file goes. -/
def Unseen (f : File) (src : Source) (off m : ℕ) : Prop :=
  ∀ k < m, src k = none → (∀ t < k, src t ≠ none) →
    ∀ t < k, (off + k) / BSIZE * BSIZE ≤ off + t → off + t < f.size →
      src t = some (f.content (off + t))

/-- Files of the same size look the same if and only if they have the same bytes. -/
lemma read_congr_iff (hsize : f.size = g.size) (hlt : g.size < 2 ^ 32) :
    (∀ off m : UInt32, f.read off.toNat m.toNat = g.read off.toNat m.toNat) ↔
      ∀ p < g.size, f.content p = g.content p := by
  constructor
  · intro hread p hp
    have hbyte := hread (UInt32.ofNat p) 1
    have hwrap : ¬(g.size < p ∨ (p + 1) % 2 ^ 32 < p) := by omega
    have hone : min 1 (g.size - p) = 1 := by omega
    rw [UInt32.toNat_ofNat_of_lt' (hp.trans hlt), UInt32.toNat_one, read, read, hsize,
      if_neg hwrap, if_neg hwrap, hone] at hbyte
    simpa using hbyte
  · intro hcontent off m
    rw [read, read, hsize]
    split
    · rfl
    · apply List.map_congr_left
      intro t ht
      rw [List.mem_range] at ht
      exact hcontent _ (by omega)

/-- The bytes that are written and do not count cannot be seen if and only if they were there
before. -/
lemma write_content_iff {src : Source} {off m tot c : ℕ} (h : src.Stops 0 off m tot c) :
    (∀ p < max f.size (off + tot),
      (f.write off tot c (src.bytes 0)).content p = (f.write off tot tot (src.bytes 0)).content p) ↔
    f.Unseen src off m := by
  rcases h.stop with ⟨htot, hc⟩ | ⟨hlt, hnone, hoff⟩
  · refine iff_of_true ?_ ?_
    · obtain rfl : tot = c := by omega
      exact fun _ _ => rfl
    · intro k hk hnone
      have hsome := h.readable k (by omega)
      rw [Nat.zero_add, hnone] at hsome
      cases hsome
  rw [Nat.zero_add] at hlt hnone
  have hle : tot ≤ c := by
    have := Nat.div_mul_le_self (off + c) BSIZE
    omega
  have hbyte : ∀ t < c, src t = some (src.bytes 0 t) := by
    intro t ht
    have hsome := h.readable t ht
    rw [Nat.zero_add] at hsome
    obtain ⟨b, hb⟩ := Option.isSome_iff_exists.mp hsome
    rw [Source.bytes, Nat.zero_add, hb]
    rfl
  constructor
  · intro hcontent k hk hk' hbefore t ht hblock hsize
    -- the copy stops at the first byte that cannot be read
    obtain rfl : k = c := by
      rcases Nat.lt_trichotomy k c with hlt' | heq | hgt
      · rw [hbyte k hlt'] at hk'
        cases hk'
      · exact heq
      · exact absurd hnone (hbefore c hgt)
    have hp := hcontent (off + t) (by omega)
    simp only [write, patch] at hp
    rw [if_pos (by omega), if_neg (by omega), Nat.add_sub_cancel_left] at hp
    rw [hbyte t ht, hp]
  · intro hunseen p hp
    simp only [write, patch]
    by_cases hin : off + tot ≤ p ∧ p < off + c
    · have hsrc := hunseen c hlt hnone (fun t ht => by rw [hbyte t ht]; exact Option.some_ne_none _)
        (p - off) (by omega) (by omega) (by omega)
      rw [hbyte _ (by omega), Nat.add_sub_cancel' (by omega)] at hsrc
      rw [if_pos (by omega), if_neg (by omega)]
      exact Option.some.inj hsrc
    · have hiff : off ≤ p ∧ p < off + c ↔ off ≤ p ∧ p < off + tot := by omega
      simp only [hiff]

end File

variable {L : Layout} {ip : Iref} {n : ℕ} {s s' : State} {V : Volume}

/-- `readi` delivers the bytes of the file. -/
lemma Loaded.readi_run {D : Set Iref} (h : Loaded L D ip n s V) {off m : ℕ} (hm : m < 2 ^ 32) :
    (readi L.toSuperblock ip (fun _ => true) off m).run s
      = .ok (some ((V.files L n).read off m), s) := by
  have hwp : wp (fun _ => False) (readi L.toSuperblock ip (fun _ => true) off m)
      (fun r s' => r = some ((V.files L n).read off m) ∧ s' = s) s := by
    apply h.wp_readi hm
    rintro r (rfl | ⟨-, t, -, ht⟩)
    · exact ⟨rfl, rfl⟩
    · cases ht
  obtain ⟨r, s', hrun, rfl, rfl⟩ := hwp.exists_run
  exact hrun

/-- For every well-formed file system, every inode in memory, every offset and length and every
memory to copy from: if `writei` returns a number of bytes, then every `readi` sees the old content
with exactly so many bytes replaced, if and only if what was copied to the block in which the copy
stopped was there before. -/
theorem writei_reports_iff (h : Loaded L ∅ ip n s V) (src : Source) (off m : UInt32) {tot : ℤ}
    (hrun : (writei L.toSuperblock ip src off.toNat m.toNat).run s = .ok (tot, s'))
    (htot : 0 ≤ tot) :
    (∀ off' m' : UInt32, (readi L.toSuperblock ip (fun _ => true) off'.toNat m'.toNat).run s'
      = .ok (some (((V.files L n).write off.toNat tot.toNat tot.toNat (src.bytes 0)).read
        off'.toNat m'.toNat), s')) ↔
    (V.files L n).Unseen src off.toNat m.toNat := by
  have hsize := Volume.files_size_lt (L := L) (V := V) (n := n)
  have hwp : wp (fun _ => True) (writei L.toSuperblock ip src off.toNat m.toNat)
      (fun r s' => r = -1 ∨ ∃ (k c : ℕ) (V' : Volume), r = k ∧ Loaded L ∅ ip n s' V' ∧
        off.toNat + k < 2 ^ 32 ∧ src.Stops 0 off.toNat m.toNat k c ∧
        V'.files L n = (V.files L n).write off.toNat k c (src.bytes 0)) s := by
    apply h.wp_writei ⟨trivial, trivial⟩ m.toNat_lt
    · exact fun _ => .inl rfl
    · intro k c s' V' haccept _ h' hle hstops hfiles
      refine .inr ⟨k, c, V', rfl, h', ?_, hstops, ?_⟩
      · have hoff := off.toNat_lt
        have hm := m.toNat_lt
        simp only [File.Refuses, not_or, not_lt] at haccept
        omega
      · rw [hfiles, Function.update_self]
  rcases hwp.returns hrun with rfl | ⟨k, c, V', rfl, h', hlt, hstops, hfile⟩
  · omega
  rw [Int.toNat_natCast, ← File.write_content_iff hstops]
  simp only [h'.readi_run (UInt32.toNat_lt _), hfile, Except.ok.injEq, Prod.mk.injEq, and_true,
    Option.some.injEq]
  exact File.read_congr_iff rfl (max_lt hsize hlt)

/-- Memory of which only the first byte can be read. -/
def oneReadable : Source := fun k => if k = 0 then some 9 else none

/-- A write to an empty file that fails on its second byte. -/
theorem writei_reports_newFile : ∃ (V : Volume) (tot : ℤ) (s' : State),
    Loaded Layout.mkfs ∅ 0 1 newFile V ∧
    (writei Layout.mkfs.toSuperblock 0 oneReadable 0 2).run newFile = .ok (tot, s') ∧ tot = 0 ∧
    ∀ off' m' : UInt32,
      (readi Layout.mkfs.toSuperblock 0 (fun _ => true) off'.toNat m'.toNat).run s'
        = .ok (some (((V.files Layout.mkfs 1).write 0 0 0 (oneReadable.bytes 0)).read
          off'.toNat m'.toNat), s') := by
  have hload : Loaded Layout.mkfs ∅ 0 1 newFile (newFile.volume Layout.mkfs.toSuperblock) :=
    newFile_wellFormed.loaded (by decide +kernel) (by decide +kernel)
  have hsize : ((newFile.volume Layout.mkfs.toSuperblock).files Layout.mkfs 1).size = 0 := by
    decide +kernel
  have htot : ((writei Layout.mkfs.toSuperblock 0 oneReadable 0 2).run newFile).toOption.map
      Prod.fst = some 0 := by
    decide +kernel
  cases hrun : (writei Layout.mkfs.toSuperblock 0 oneReadable 0 2).run newFile with
  | error e =>
    rw [hrun] at htot
    cases htot
  | ok r =>
    obtain ⟨tot, s'⟩ := r
    rw [hrun] at htot
    obtain rfl : tot = 0 := Option.some.inj htot
    refine ⟨_, 0, s', hload, rfl, rfl, ?_⟩
    apply (writei_reports_iff hload oneReadable 0 2 hrun le_rfl).mpr
    intro k _ _ _ t _ _ hlt
    omega

/-- Three bytes are written, and then two of which the second cannot be read: the second write
returns 0 and has changed the first byte. -/
theorem writei_changes_uncounted : newFile.WellFormed Layout.mkfs ∧
    ((do
      let _ ← writei Layout.mkfs.toSuperblock 0 (fun k => some (UInt8.ofNat k)) 0 3
      let old ← readi Layout.mkfs.toSuperblock 0 (fun _ => true) 0 3
      let tot ← writei Layout.mkfs.toSuperblock 0 oneReadable 0 2
      let new ← readi Layout.mkfs.toSuperblock 0 (fun _ => true) 0 3
      return (old, tot, new) : FsM _).run newFile).toOption.map Prod.fst
        = some (some [0, 1, 2], 0, some [9, 1, 2]) :=
  ⟨newFile_wellFormed, by decide +kernel⟩

end Xv6.Fs
