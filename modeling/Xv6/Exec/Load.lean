import Xv6.Exec.Basic

/-!
# exec is all or nothing

The new address space of `exec` while it is being built, by its size and by the bytes that it holds.
At every point it can be given back, which leaves the rest of the memory as it was; and when it is
complete, it holds the segments of the file and zeros.
-/

namespace Xv6.Exec

open Core Coroutine Assn Vm
open Sysfile (field ELF_MAGIC ELF_PROG_LOAD)
open scoped Pointwise

variable {sym : Symbols} {s : State} {R : Assn ℕ Page} {F : Panic → Prop} {p tf sz : ℕ}
  {f : ℕ → UInt8} {ip : Fs.File}

/-! ### Address spaces under construction -/

/-- The pages of a memory that is given by its bytes. -/
def pagesOf (f : ℕ → UInt8) : ℕ → Page := fun v j => f (v * PGSIZE + j.val)

/-- The page table at `p` maps `sz` bytes of user memory, which can be given back. -/
def Mapped (sym : Symbols) (tf p : ℕ) (R : Assn ℕ Page) (sz : ℕ) (s : State) : Prop :=
  ∃ Φ M, UserMap sym tf (npages sz) Φ ∧ Owned sym s (tree 2 p Φ + (umem Φ M (npages sz) + R))

/-- The page table at `p` maps `sz` bytes of user memory, all open to the user, which hold the bytes
`f`. -/
structure Loading (sym : Symbols) (tf p : ℕ) (R : Assn ℕ Page) (sz : ℕ) (f : ℕ → UInt8)
    (Φ : ℕ → ℕ) (s : State) : Prop where
  map : UserMap sym tf (npages sz) Φ
  user : ∀ v < npages sz, Φ v % 1024 = userFlags
  zero : ∀ a, npages sz * PGSIZE ≤ a → f a = 0
  owned : Owned sym s (tree 2 p Φ + (umem Φ (pagesOf f) (npages sz) + R))

variable {Q : Option Image → State → Prop} {n : ℕ} {argv : List (List UInt8)}

lemma wp_bad (h : Mapped sym tf p R sz s) (hQ : ∀ s', Owned sym s' R → Q none s') :
    wp F (bad sym (p * PGSIZE) sz) Q s := by
  obtain ⟨Φ, M, hmap, howned⟩ := h
  rw [bad, wp_bind]
  exact wp_procFreepagetable hmap rfl howned fun s' h' => hQ s' h'

namespace Loading

variable {Φ : ℕ → ℕ}

lemma mapped (h : Loading sym tf p R sz f Φ s) : Mapped sym tf p R sz s :=
  ⟨Φ, pagesOf f, h.map, h.owned⟩

lemma npages_le (h : Loading sym tf p R sz f Φ s) : npages sz ≤ 32768 :=
  (h.owned.perm (add_left_comm _ _ _)).npages_le

lemma sz_le (h : Loading sym tf p R sz f Φ s) : sz ≤ 134217728 :=
  (h.owned.perm (add_left_comm _ _ _)).sz_le rfl

lemma userPage (h : Loading sym tf p R sz f Φ s) {a : ℕ} (ha : a < npages sz * PGSIZE) :
    UserPage Φ (npages sz) (a / PGSIZE) := by
  have hlt : a / PGSIZE < npages sz := (Nat.div_lt_iff_lt_mul PGSIZE_pos).mpr ha
  refine ⟨hlt, ?_⟩
  rw [and_flags _ (by decide), h.user _ hlt]
  decide

/-- A new page table. -/
lemma empty (hmap : UserMap sym tf 0 Φ) (h : Owned sym s (tree 2 p Φ + R)) :
    Loading sym tf p R 0 (fun _ => 0) Φ s := by
  have hzero : npages 0 = 0 := by decide
  refine ⟨by rwa [hzero], by simp [hzero], fun _ _ => rfl, ?_⟩
  rwa [hzero, umem_zero, zero_add]

/-- The size is rounded up to whole pages. -/
lemma roundup (h : Loading sym tf p R sz f Φ s) :
    Loading sym tf p R (npages sz * PGSIZE) f Φ s := by
  have heq : npages (npages sz * PGSIZE) = npages sz := npages_mul _
  refine ⟨?_, ?_, ?_, ?_⟩
  · rw [heq]
    exact h.map
  · rw [heq]
    exact h.user
  · rw [heq]
    exact h.zero
  · rw [heq]
    exact h.owned

/-- `uvmalloc` grows the memory by zeros, or fails and changes nothing. -/
lemma wp_uvmalloc {Q : ℕ → State → Prop} {newsz : ℕ} (h : Loading sym tf p R sz f Φ s)
    (hless : newsz < sz → Q sz s) (hfail : ∀ s', Loading sym tf p R sz f Φ s' → Q 0 s')
    (hok : ∀ s' Ψ, sz ≤ newsz → Loading sym tf p R newsz f Ψ s' → Q newsz s') :
    wp F (Vm.uvmalloc sym (p * PGSIZE) sz newsz) Q s := by
  apply Vm.wp_uvmalloc h.map rfl h.owned hless
  · exact fun s' _ h' => hfail s' ⟨h.map, h.user, h.zero, h'⟩
  · intro s' Ψ hle hg h'
    have hpages := npages_mono hle
    have hmax : npages newsz ≤ 32768 := (h'.perm (add_left_comm _ _ _)).npages_le
    refine hok s' Ψ hle ⟨?_, ?_, ?_, ?_⟩
    · exact hg.userMap h.map hpages (by rw [trapframePage_eq]; omega)
    · intro v hv
      by_cases hvn : v < npages sz
      · rw [hg.out v (by omega)]
        exact h.user v hvn
      · exact hg.flags v (by omega) hv
    · intro a ha
      exact h.zero a ((Nat.mul_le_mul_right _ hpages).trans ha)
    · -- beyond the old size the bytes are zero already
      have hsame : ∀ v < npages newsz, extend (pagesOf f) (npages sz) v = pagesOf f v := by
        intro v _
        by_cases hvn : v < npages sz
        · exact extend_of_lt hvn
        · rw [extend_of_le (by omega)]
          funext j
          refine (h.zero _ ?_).symm
          exact (Nat.mul_le_mul_right _ (Nat.not_lt.mp hvn)).trans (Nat.le_add_right _ _)
      rwa [umem_congr (fun _ _ => rfl) hsame] at h'

end Loading

/-! ### Segments -/

/-- The bytes of the file from `off` on. -/
def fileBytes (ip : Fs.File) (off n : ℕ) : List UInt8 :=
  (List.range n).map fun t => ip.content (off + t)

@[simp]
lemma length_fileBytes (off n : ℕ) : (fileBytes ip off n).length = n := by simp [fileBytes]

lemma fileBytes_add (off m n : ℕ) :
    fileBytes ip off (m + n) = fileBytes ip off m ++ fileBytes ip (off + m) n := by
  simp [fileBytes, List.range_add, Nat.add_assoc]

lemma length_read_le (off n : ℕ) : (ip.read off n).length ≤ n := by
  rw [Fs.File.read]
  split_ifs
  · exact Nat.zero_le n
  · simp

/-- A read that is not short lies within the file. -/
lemma read_of_length {off : ℕ} (hn : 0 < n) (h : (ip.read off n).length = n) :
    off + n ≤ ip.size ∧ ip.read off n = fileBytes ip off n := by
  rw [Fs.File.read] at h ⊢
  split_ifs at h ⊢ with hout
  · simp at h
    omega
  · rw [List.length_map, List.length_range] at h
    rw [h]
    exact ⟨by omega, rfl⟩

variable {Φ : ℕ → ℕ}

/-- The rounds of `loadseg` from `i` on, when everything before is loaded. -/
lemma wp_loadsegFrom {Q : Bool → State → Prop} {va offset len fuel i : ℕ}
    {M : ℕ → Page} (hmap : UserMap sym tf n Φ)
    (huser : ∀ a, va ≤ a → a < va + len → UserPage Φ n (a / PGSIZE)) (hva : PGSIZE ∣ va)
    (hi : PGSIZE ∣ i) (hfuel : len ≤ i + fuel * PGSIZE) (hsize : ip.size < 2 ^ 32)
    (hoffset : offset < 2 ^ 32) (hread : 0 < i → offset + min i len ≤ ip.size)
    (h : Owned sym s (tree 2 p Φ
      + (umem Φ (writeMem M va (fileBytes ip offset (min i len))) n + R)))
    (hfail : ∀ s' M', Owned sym s' (tree 2 p Φ + (umem Φ M' n + R)) → Q false s')
    (hok : ∀ s', (0 < len → offset + len ≤ ip.size) → Owned sym s' (tree 2 p Φ
      + (umem Φ (writeMem M va (fileBytes ip offset len)) n + R)) → Q true s') :
    wp F (loadsegFrom (p * PGSIZE) va ip offset len fuel i) Q s := by
  have hdone : len ≤ i → Q true s := by
    intro hle
    rw [min_eq_right hle] at h hread
    exact hok s (fun hpos => hread (by omega)) h
  induction fuel generalizing s i with
  | zero => exact hdone (by omega)
  | succ fuel ih =>
    rw [loadsegFrom]
    refine wp_ite ?_ fun hge => hdone (by omega)
    intro hlt
    rw [min_eq_left hlt.le] at h hread
    -- neither the address nor the offset wraps
    have hpage := huser (va + i) (by omega) (by omega)
    have hle := hmap.le
    rw [trapframePage_eq] at hle
    have hmod : (va + i) % 2 ^ 64 = va + i := by
      apply Nat.mod_eq_of_lt
      have := hpage.1
      rw [PGSIZE] at this
      omega
    have hoff : (offset + i) % 2 ^ 32 = offset + i := by
      apply Nat.mod_eq_of_lt
      rcases Nat.eq_zero_or_pos i with rfl | hpos
      · exact hoffset
      · exact (hread hpos).trans_lt hsize
    have hk : (if len - i < PGSIZE then len - i else PGSIZE) = min (len - i) PGSIZE := by
      split_ifs <;> omega
    have hk' : min (i + PGSIZE) len = i + min (len - i) PGSIZE := by omega
    have hpos : 0 < min (len - i) PGSIZE := by
      have := PGSIZE_pos
      omega
    have hkle : min (len - i) PGSIZE ≤ PGSIZE := min_le_right _ _
    dsimp only
    rw [hmod, hoff, hk, wp_bind]
    generalize min (len - i) PGSIZE = k at hk' hpos hkle
    apply wp_walkaddr hmap h
    · exact fun hno => absurd hpage hno
    intro _
    have hne : Φ ((va + i) / PGSIZE) / 1024 * PGSIZE ≠ 0 :=
      Nat.mul_ne_zero (pos_of_mem_ram (h.user_mem_ram hpage.1)).ne' (by decide)
    have hlen : (ip.read (offset + i) k).length ≤ k := length_read_le _ _
    have haddr : (va + i) / PGSIZE * PGSIZE = va + i :=
      Nat.div_mul_cancel (Nat.dvd_add hva hi)
    rw [if_neg hne, wp_bind, memmove, Nat.mul_mod_left, ← Nat.add_zero (_ * PGSIZE)]
    apply wp_setPage_user hpage.1 PGSIZE_pos h
    intro s₁ _ h₁
    rw [update_patch (by omega), haddr, Nat.add_zero] at h₁
    refine wp_ite (fun _ => hfail s₁ _ h₁) ?_
    intro hfull
    obtain ⟨hin, hbytes⟩ := read_of_length hpos (not_not.mp hfull)
    have happ := writeMem_append M va (fileBytes ip offset i) (fileBytes ip (offset + i) k)
    rw [length_fileBytes, ← fileBytes_add] at happ
    rw [hbytes, happ, ← hk'] at h₁
    have hread' : 0 < i + PGSIZE → offset + min (i + PGSIZE) len ≤ ip.size := by
      intro _
      omega
    refine ih (hi.add (dvd_refl _)) ?_ hread' h₁ ?_
    · rw [Nat.succ_mul] at hfuel
      omega
    · intro hle
      rw [min_eq_right hle] at h₁ hread'
      exact hok s₁ (fun _ => hread' (by omega)) h₁

/-- `loadseg` does not panic within the memory that is mapped; it writes the bytes of the file, or
the file is too short. -/
lemma Loading.wp_loadseg {Q : Bool → State → Prop} {va offset len : ℕ}
    (h : Loading sym tf p R sz f Φ s) (hva : PGSIZE ∣ va) (hlen : va + len ≤ sz)
    (hsize : ip.size < 2 ^ 32) (hoffset : offset < 2 ^ 32)
    (hfail : ∀ s', Mapped sym tf p R sz s' → Q false s')
    (hok : ∀ s', (0 < len → offset + len ≤ ip.size) →
      Loading sym tf p R sz (overwrite f va (fileBytes ip offset len)) Φ s' → Q true s') :
    wp F (loadseg (p * PGSIZE) va ip offset len) Q s := by
  have hle : sz ≤ npages sz * PGSIZE := le_npages_iff.mp le_rfl
  rw [loadseg]
  refine wp_loadsegFrom (R := R) (M := pagesOf f) h.map ?_ hva (dvd_zero _) ?_ hsize hoffset
    (by simp) ?_ ?_ ?_
  · exact fun a _ ha => h.userPage (by omega)
  · have := Nat.lt_mul_div_succ len PGSIZE_pos
    rw [Nat.mul_comm] at this
    omega
  · rw [Nat.zero_min]
    exact h.owned.perm (by rw [show fileBytes ip offset 0 = [] from rfl, writeMem_nil])
  · exact fun s' M' h' => hfail s' ⟨Φ, M', h.map, h'⟩
  · intro s' hin h'
    refine hok s' hin ⟨h.map, h.user, ?_, h'⟩
    intro a ha
    rw [overwrite_of_not_mem (by rw [length_fileBytes]; omega)]
    exact h.zero a ha

/-! ### Program headers -/

/-- The program headers that the loop comes to. -/
def proghdrs (ip : Fs.File) : ℕ → ℕ → List Proghdr
  | 0, _ => []
  | k + 1, off => .ofBytes (ip.read off 56) :: proghdrs ip k ((off + 56) % 2 ^ 32)

namespace Proghdr

/-- The segment is to be loaded, and it has a byte of the file at `a`. -/
def Covers (ph : Proghdr) (a : ℕ) : Prop :=
  ph.type = ELF_PROG_LOAD ∧ ph.vaddr ≤ a ∧ a < ph.vaddr + ph.filesz

/-- The memory after the segment is loaded. -/
def load (ip : Fs.File) (ph : Proghdr) (f : ℕ → UInt8) : ℕ → UInt8 :=
  if ph.type = ELF_PROG_LOAD then overwrite f ph.vaddr (fileBytes ip (ph.off % 2 ^ 32) ph.filesz)
  else f

variable {ph : Proghdr} {a : ℕ}

lemma load_of_covers (h : ph.Covers a) :
    ph.load ip f a = ip.content (ph.off % 2 ^ 32 + (a - ph.vaddr)) := by
  obtain ⟨hload, hle, hlt⟩ := h
  have hk : a - ph.vaddr < (fileBytes ip (ph.off % 2 ^ 32) ph.filesz).length := by
    rw [length_fileBytes]
    omega
  rw [load, if_pos hload, overwrite, if_pos (by rw [length_fileBytes]; omega),
    List.getD_eq_getElem _ _ hk]
  simp [fileBytes]

lemma load_of_not_covers (h : ¬ph.Covers a) : ph.load ip f a = f a := by
  rw [load]
  split_ifs with hload
  · apply overwrite_of_not_mem
    rw [length_fileBytes]
    have hout : ¬(ph.vaddr ≤ a ∧ a < ph.vaddr + ph.filesz) := fun hin => h ⟨hload, hin⟩
    omega
  · rfl

end Proghdr

/-- The memory after all segments are loaded, in order. -/
def image (ip : Fs.File) : List Proghdr → (ℕ → UInt8) → ℕ → UInt8
  | [], f => f
  | ph :: phs, f => image ip phs (ph.load ip f)

lemma image_of_not_covers {phs : List Proghdr} {a : ℕ} (h : ∀ ph ∈ phs, ¬ph.Covers a) :
    image ip phs f a = f a := by
  induction phs generalizing f with
  | nil => rfl
  | cons ph phs ih =>
    rw [image, ih fun ph' hph' => h ph' (List.mem_cons_of_mem _ hph')]
    exact Proghdr.load_of_not_covers (h ph (List.mem_cons_self ..))

/-- The last segment that covers an address counts. -/
lemma image_of_covers {phs : List Proghdr} {i a : ℕ} {ph : Proghdr} (hph : phs[i]? = some ph)
    (ha : ph.Covers a) (hlast : ∀ j ph', i < j → phs[j]? = some ph' → ¬ph'.Covers a) :
    image ip phs f a = ip.content (ph.off % 2 ^ 32 + (a - ph.vaddr)) := by
  induction phs generalizing f i with
  | nil => simp at hph
  | cons ph₀ phs ih =>
    cases i with
    | zero =>
      obtain rfl : ph₀ = ph := by simpa using hph
      have hrest : ∀ ph' ∈ phs, ¬ph'.Covers a := by
        intro ph' hph'
        obtain ⟨j, hj⟩ := List.mem_iff_getElem?.mp hph'
        exact hlast (j + 1) ph' (by omega) (by simpa using hj)
      rw [image, image_of_not_covers hrest, Proghdr.load_of_covers ha]
    | succ i =>
      rw [image]
      refine ih (by simpa using hph) fun j ph' hj hph' => ?_
      exact hlast (j + 1) ph' (by omega) (by simpa using hph')

/-- The segment is read from within the file, to within the first `sz` bytes of memory. -/
def Fits (ip : Fs.File) (sz : ℕ) (ph : Proghdr) : Prop :=
  ph.type = ELF_PROG_LOAD → ph.vaddr + ph.filesz ≤ sz ∧
    (0 < ph.filesz → ph.off % 2 ^ 32 + ph.filesz ≤ ip.size)

lemma field_lt (bs : List UInt8) (off len : ℕ) : field bs off len < 256 ^ len := by
  rw [field]
  generalize hl : List.range len = l
  have hlen : len = l.length := by rw [← hl, List.length_range]
  rw [hlen]
  clear hl hlen
  induction l with
  | nil => simp
  | cons k l ih =>
    have hbyte := (bs.getD (off + k) 0).toNat_lt
    rw [List.foldr_cons, List.length_cons, pow_succ]
    omega

/-- The loop over the program headers does not panic; what it has built when it ends can be given
back, and holds the segments when it has come to its end. -/
lemma wp_loadProgram {Q : Bool × ℕ → State → Prop} {k off : ℕ}
    (hsize : ip.size < 2 ^ 32) (h : Loading sym tf p R sz f Φ s)
    (hfail : ∀ s' sz', Mapped sym tf p R sz' s' → Q (false, sz') s')
    (hok : ∀ s' sz' Ψ, sz ≤ sz' → (∀ ph ∈ proghdrs ip k off, Fits ip sz' ph) →
      Loading sym tf p R sz' (image ip (proghdrs ip k off) f) Ψ s' → Q (true, sz') s') :
    wp F (loadProgram sym (p * PGSIZE) ip k off sz) Q s := by
  induction k generalizing s sz f Φ off with
  | zero => exact hok s sz Φ le_rfl (by simp [proghdrs]) h
  | succ k ih =>
    rw [loadProgram]
    have hphdr : proghdrs ip (k + 1) off
        = .ofBytes (ip.read off 56) :: proghdrs ip k ((off + 56) % 2 ^ 32) := rfl
    have hvaddr : (Proghdr.ofBytes (ip.read off 56)).vaddr < 2 ^ 64 := field_lt _ _ _
    have hmemsz : (Proghdr.ofBytes (ip.read off 56)).memsz < 2 ^ 64 := field_lt _ _ _
    generalize Proghdr.ofBytes (ip.read off 56) = ph at hphdr hvaddr hmemsz
    rw [hphdr] at hok
    refine wp_ite (fun _ => hfail s sz h.mapped) fun _ => ?_
    apply wp_ite
    · intro hskip
      refine ih h fun s' sz' Ψ hle hfits h' => ?_
      refine hok s' sz' Ψ hle ?_ ?_
      · exact List.forall_mem_cons.mpr ⟨fun hload => absurd hload hskip, hfits⟩
      · rwa [image, Proghdr.load, if_neg hskip]
    intro hload
    refine wp_ite (fun _ => hfail s sz h.mapped) fun hmem => ?_
    refine wp_ite (fun _ => hfail s sz h.mapped) fun hwrap => ?_
    have hend : (ph.vaddr + ph.memsz) % 2 ^ 64 = ph.vaddr + ph.memsz := by omega
    rw [hend, wp_bind]
    -- what follows when there are pages for the segment
    have hnext : ∀ s₁ sz₁ Ψ, sz ≤ sz₁ → ph.vaddr + ph.memsz ≤ sz₁ →
        Loading sym tf p R sz₁ f Ψ s₁ →
        wp F (if sz₁ = 0 then return (false, sz)
          else if ph.vaddr % PGSIZE ≠ 0 then return (false, sz₁)
          else do
            if ← loadseg (p * PGSIZE) ph.vaddr ip (ph.off % 2 ^ 32) (ph.filesz % 2 ^ 32) then
              loadProgram sym (p * PGSIZE) ip k ((off + 56) % 2 ^ 32) sz₁
            else
              return (false, sz₁)) Q s₁ := by
      intro s₁ sz₁ Ψ hle hend h₁
      have hmax := h₁.sz_le
      apply wp_ite
      · intro hzero
        obtain rfl : sz = sz₁ := by omega
        exact hfail s₁ sz h₁.mapped
      intro _
      refine wp_ite (fun _ => hfail s₁ sz₁ h₁.mapped) fun halign => ?_
      have hdvd : PGSIZE ∣ ph.vaddr := Nat.dvd_of_mod_eq_zero (not_not.mp halign)
      rw [Nat.mod_eq_of_lt (show ph.filesz < 2 ^ 32 by omega), wp_bind]
      refine h₁.wp_loadseg hdvd (by omega) hsize (Nat.mod_lt _ (by norm_num)) ?_ ?_
      · exact fun s₂ h₂ => hfail s₂ sz₁ h₂
      · intro s₂ hin h₂
        refine ih h₂ fun s' sz' Ψ' hle' hfits h' => ?_
        refine hok s' sz' Ψ' (by omega) ?_ ?_
        · exact List.forall_mem_cons.mpr ⟨fun _ => ⟨by omega, hin⟩, hfits⟩
        · rwa [image, Proghdr.load, if_pos (not_not.mp hload)]
    refine h.wp_uvmalloc ?_ ?_ ?_
    · exact fun hlt => hnext s sz Φ le_rfl hlt.le h
    · intro s₁ h₁
      rw [if_pos rfl]
      exact hfail s₁ sz h₁.mapped
    · exact fun s₁ Ψ hle h₁ => hnext s₁ _ Ψ hle le_rfl h₁

/-! ### The stack -/

/-- The memory holds the bytes `g`, which are `f` below the guard page. -/
def StackHolds (sym : Symbols) (p : ℕ) (R : Assn ℕ Page) (n : ℕ) (f : ℕ → UInt8) (Ψ : ℕ → ℕ)
    (g : ℕ → UInt8) (s : State) : Prop :=
  (∀ a < n * PGSIZE, g a = f a) ∧
    Owned sym s (tree 2 p Ψ + (umem Ψ (pagesOf g) (n + 2) + R))

/-- A copy to the stack page, which is open to the user. -/
lemma wp_copyout_stack {va : ℕ} {Ψ : ℕ → ℕ} {g : ℕ → UInt8} {bs : List UInt8}
    (hmap : UserMap sym tf (n + 2) Ψ) (hopen : UserPage Ψ (n + 2) (n + 1))
    (h : StackHolds sym p R n f Ψ g s) (hbot : (n + 1) * PGSIZE ≤ va)
    (htop : va + bs.length ≤ (n + 2) * PGSIZE) :
    wp F (Vm.copyout (p * PGSIZE) va bs)
      (fun r s' => r = true ∧ StackHolds sym p R n f Ψ (overwrite g va bs) s') s := by
  obtain ⟨hsame, hg⟩ := h
  apply Vm.wp_copyout hmap hg
  · rintro s' k ⟨a, ha, ha', hno⟩
    have hdiv : a / PGSIZE = n + 1 := by
      rw [Nat.div_eq_iff PGSIZE_pos]
      have : (n + 2) * PGSIZE = (n + 1) * PGSIZE + PGSIZE := by ring
      omega
    rw [hdiv] at hno
    exact absurd hopen hno
  · intro s' _ h'
    refine ⟨rfl, ?_, h'⟩
    intro a ha
    have : (n + 1) * PGSIZE = n * PGSIZE + PGSIZE := by ring
    rw [overwrite_of_not_mem (by omega)]
    exact hsame a ha

/-- The stack is set up in a page above the guard page, and the memory below is left alone; or
everything is given back. -/
lemma wp_setupStack {entry : ℕ}
    (hn : npages sz = n) (h : Loading sym tf p R sz f Φ s)
    (hargs : argv.length < MAXARG) (hlen : ∀ arg ∈ argv, arg.length < PGSIZE)
    (hfail : ∀ s', Owned sym s' R → Q none s')
    (hok : ∀ s' Ψ g sp, UserMap sym tf (n + 2) Ψ → ¬UserPage Ψ (n + 2) n →
      (∀ a < n * PGSIZE, g a = f a) →
      Owned sym s' (tree 2 p Ψ + (umem Ψ (pagesOf g) (n + 2) + R)) →
      Q (some ⟨p * PGSIZE, (n + 2) * PGSIZE, entry, argv.length, sp⟩) s') :
    wp F (setupStack sym (p * PGSIZE) sz entry argv) Q s := by
  have hmax := h.npages_le
  have hround : PGROUNDUP sz = n * PGSIZE := by
    have := h.sz_le
    rw [PGROUNDUP_eq (by rw [MAXVA_eq]; omega), hn]
  have hnew : (n * PGSIZE + 2 * PGSIZE) % 2 ^ 64 = (n + 2) * PGSIZE := by
    rw [← Nat.add_mul, Nat.mod_eq_of_lt]
    rw [PGSIZE]
    omega
  have hless : n * PGSIZE ≤ (n + 2) * PGSIZE := Nat.mul_le_mul_right _ (by omega)
  have hpos : (n + 2) * PGSIZE ≠ 0 := Nat.mul_ne_zero (by omega) (by decide)
  have hguard : (n + 2) * PGSIZE - 2 * PGSIZE = n * PGSIZE := by
    rw [← Nat.sub_mul, Nat.add_sub_cancel]
  have h₀ := h.roundup
  rw [hn] at h₀
  rw [setupStack, hround, hnew, wp_bind]
  apply h₀.wp_uvmalloc
  · exact fun hlt => absurd hlt (Nat.not_lt.mpr hless)
  · intro s₁ h₁
    rw [if_pos rfl]
    exact wp_bad h₁.mapped hfail
  intro s₁ Ψ _ h₁
  rw [if_neg hpos, hguard, wp_bind]
  obtain ⟨hmap, huser, -, howned⟩ := h₁
  rw [npages_mul] at hmap huser howned
  have hflags := huser n (by omega)
  apply wp_uvmclear hmap (by omega) hflags howned
  intro s₂ h₂
  have hmap' := hmap.guarded (by omega) hflags
  have hopen : UserPage (guarded Ψ n) (n + 2) (n + 1) := by
    refine ⟨by omega, ?_⟩
    rw [guarded_of_ne (by omega), and_flags _ (by decide), huser _ (by omega)]
    decide
  rw [wp_bind]
  have hpage : PGSIZE ≤ (n + 1) * PGSIZE := Nat.le_mul_of_pos_left _ (by omega)
  have htop : (n + 1) * PGSIZE + PGSIZE = (n + 2) * PGSIZE := by ring
  have hstack : StackHolds sym p R n f (guarded Ψ n) f s₂ := ⟨fun _ _ => rfl, h₂⟩
  refine (wp_pushArgs (wp_copyout_stack hmap' hopen) hstack (Dvd.intro_left _ rfl) htop hpage hargs
    hlen).mono ?_
  rintro res s₃ ⟨g, ⟨hsame, hg⟩, -, hsome⟩
  cases res with
  | none =>
    have hmapped : Mapped sym tf p R ((n + 2) * PGSIZE) s₃ := by
      refine ⟨guarded Ψ n, pagesOf g, ?_, ?_⟩
      · rwa [npages_mul]
      · rwa [npages_mul]
    exact wp_bad hmapped hfail
  | some r =>
    obtain ⟨argc, sp⟩ := r
    obtain ⟨rfl, -⟩ := hsome argc sp rfl
    exact hok s₃ _ g sp hmap' (not_userPage_guarded hflags) hsame hg

/-! ### The new program -/

/-- The program headers of a file. -/
def headers (ip : Fs.File) : List Proghdr :=
  proghdrs ip (field (ip.read 0 64) 56 2) (field (ip.read 0 64) 32 8 % 2 ^ 32)

/-- Below the guard page, which the user may not access, the address space holds the segments of the
file and zeros. -/
structure Loaded (ip : Fs.File) (C : Space sym) (guard : ℕ) : Prop where
  size : C.size = (guard + 2) * PGSIZE
  guarded : ¬UserPage C.entry (npages C.size) guard
  fits : ∀ ph ∈ headers ip, Fits ip (guard * PGSIZE) ph
  segment : ∀ (i : ℕ) (ph : Proghdr) (a : ℕ), (headers ip)[i]? = some ph → ph.Covers a →
    (∀ (j : ℕ) (ph' : Proghdr), i < j → (headers ip)[j]? = some ph' → ¬ph'.Covers a) →
    (C.mem (a / PGSIZE)).byte (a % PGSIZE) = ip.content (ph.off % 2 ^ 32 + (a - ph.vaddr))
  zero : ∀ a < guard * PGSIZE, (∀ ph ∈ headers ip, ¬ph.Covers a) →
    (C.mem (a / PGSIZE)).byte (a % PGSIZE) = 0

lemma byte_pagesOf (g : ℕ → UInt8) (a : ℕ) :
    (pagesOf g (a / PGSIZE)).byte (a % PGSIZE) = g a := by
  have hlt : a % PGSIZE < PGSIZE := Nat.mod_lt a PGSIZE_pos
  rw [Page.byte, dif_pos hlt, pagesOf, Nat.div_add_mod']

/-- A program that is loaded from a page boundary on. -/
lemma Loaded.of_image {C : Space sym} {g : ℕ → UInt8} (hsize : C.size = (n + 2) * PGSIZE)
    (hguard : ¬UserPage C.entry (n + 2) n) (hmem : C.mem = pagesOf g)
    (hfits : ∀ ph ∈ headers ip, Fits ip (n * PGSIZE) ph)
    (hg : ∀ a < n * PGSIZE, g a = image ip (headers ip) (fun _ => 0) a) : Loaded ip C n where
  size := hsize
  guarded := by rwa [hsize, npages_mul]
  fits := hfits
  segment i ph a hph ha hlast := by
    have hle := (hfits ph (List.mem_of_getElem? hph) ha.1).1
    have hlt : a < n * PGSIZE := ha.2.2.trans_le hle
    rw [hmem, byte_pagesOf, hg a hlt, image_of_covers hph ha hlast]
  zero a ha hout := by
    rw [hmem, byte_pagesOf, hg a ha, image_of_not_covers hout]

/-- `exec` does not panic before it commits: it gives everything back, or there is a new address
space with the program. -/
lemma wp_prepare {tfp : ℕ} {file : Option Fs.File}
    (hsize : ∀ ip ∈ file, ip.size < 2 ^ 32) (htf : tfp ∈ ram sym)
    (h : Owned sym s R) (hargs : argv.length < MAXARG) (hlen : ∀ arg ∈ argv, arg.length < PGSIZE)
    (hfail : ∀ s', Owned sym s' R → Q none s')
    (hok : ∀ s' ip (C : Space sym) n entry sp, file = some ip → C.trapframe = tfp →
      Loaded ip C n → Owned sym s' (tree 2 C.root C.entry
        + (umem C.entry C.mem (npages C.size) + R)) →
      Q (some ⟨C.root * PGSIZE, C.size, entry, argv.length, sp⟩) s') :
    wp F (prepare sym (tfp * PGSIZE) file argv) Q s := by
  cases file with
  | none => exact hfail s h
  | some ip =>
    have hsize' := hsize ip rfl
    rw [prepare]
    generalize field (ip.read 0 64) 0 4 = magic
    refine wp_ite (fun _ => hfail s h) fun _ => ?_
    refine wp_ite (fun _ => hfail s h) fun _ => ?_
    rw [wp_bind]
    apply wp_procPagetable (Dvd.intro_left _ rfl) (lt_PHYSTOP_of_mem_ram htf) h
    · intro s₁ h₁
      exact hfail s₁ h₁
    intro p s₁ Φ hp hmap h₁
    rw [if_neg (Nat.mul_ne_zero (pos_of_mem_ram hp).ne' (by decide)), wp_bind]
    apply wp_loadProgram hsize' (.empty hmap h₁)
    · exact fun s₂ sz h₂ => wp_bad h₂ hfail
    · intro s₂ sz Ψ _ hfits h₂
      have hle : sz ≤ npages sz * PGSIZE := le_npages_iff.mp le_rfl
      refine wp_setupStack rfl h₂ hargs hlen hfail ?_
      intro s₃ Ψ' g sp hmap' hguard hsame h₃
      generalize npages sz = n at *
      have hn : npages ((n + 2) * PGSIZE) = n + 2 := npages_mul _
      let C : Space sym := ⟨p, tfp, (n + 2) * PGSIZE, Ψ', pagesOf g, by rwa [hn]⟩
      refine hok s₃ ip C n _ sp rfl rfl (.of_image rfl hguard rfl ?_ hsame) ?_
      · intro ph hph hload
        obtain ⟨hend, hin⟩ := hfits ph hph hload
        exact ⟨hend.trans hle, hin⟩
      · show Owned sym s₃ (tree 2 p Ψ' + (umem Ψ' (pagesOf g) (npages ((n + 2) * PGSIZE)) + R))
        rwa [hn]

/-- The old address space is given back, and the trapframe is kept. -/
lemma wp_commit {Q : Task → State → Prop} {A C : Space sym} {img : Image} {path name : List UInt8}
    (htf : C.trapframe = A.trapframe)
    (h : Owned sym s (tree 2 C.root C.entry + (umem C.entry C.mem (npages C.size)
      + (A.pages + R))))
    (hQ : ∀ s', Owned sym s' (C.pages + R) →
      Q ⟨img.pagetable, img.sz, A.trapframe * PGSIZE, programName path⟩ s') :
    wp F (commit sym ⟨A.root * PGSIZE, A.size, A.trapframe * PGSIZE, name⟩ img path) Q s := by
  have h₀ := h.perm (by rw [A.pages_add]; abel : _ = own A.trapframe + (tree 2 A.root A.entry
    + (umem A.entry A.mem (npages A.size) + (tree 2 C.root C.entry
    + (umem C.entry C.mem (npages C.size) + R)))))
  obtain ⟨c, hc⟩ := h₀.exists_left
  rw [commit, wp_bind]
  apply wp_store (i := 15) hc (by norm_num)
  intro s₁ h₁
  rw [wp_bind]
  apply wp_store (i := 3) h₁ (by norm_num)
  intro s₂ h₂
  rw [wp_bind]
  apply wp_store (i := 6) h₂ (by norm_num)
  intro s₃ h₃
  have h₄ := (h₃.mono_left (pts_subset_own _ _)).perm (by abel : _ = tree 2 A.root A.entry
    + (umem A.entry A.mem (npages A.size) + (own A.trapframe + (tree 2 C.root C.entry
    + (umem C.entry C.mem (npages C.size) + R)))))
  rw [wp_bind]
  apply wp_procFreepagetable A.map rfl h₄
  intro s₅ h₅
  apply hQ
  refine h₅.perm ?_
  rw [C.pages_add, htf]
  abel

/-- The process with an address space and a name. -/
def Task.of (A : Space sym) (name : List UInt8) : Task :=
  ⟨A.root * PGSIZE, A.size, A.trapframe * PGSIZE, name⟩

/-- For every file, whatever its headers say, for all arguments that `sys_exec` can build and for
every pattern of allocation failures, `exec` returns. If it returns -1, the process is as it was,
the same pages are free, and all other pages are as they were. Otherwise the process has a new
address space that holds the segments of the file and zeros below the guard page, and the old one is
freed. -/
theorem exec_all_or_nothing (A : Space sym) (h : Owned sym s (A.pages + R)) (name : List UInt8)
    (file : Option Fs.File) (hsize : ∀ ip ∈ file, ip.size < 2 ^ 32) (path : List UInt8)
    (argv : List (List UInt8)) (hargs : argv.length < MAXARG)
    (hlen : ∀ arg ∈ argv, arg.length < PGSIZE) :
    ∃ r p' s', (exec sym (.of A name) file path argv).run s = .ok ((r, p'), s') ∧
      (r = none → p' = .of A name ∧ Unchanged sym s s') ∧
      ∀ argc, r = some argc → argc = argv.length ∧ ∃ (ip : Fs.File) (C : Space sym) (guard : ℕ),
        file = some ip ∧ p' = .of C (programName path) ∧ C.trapframe = A.trapframe ∧
        Loaded ip C guard ∧ Owned sym s' (C.pages + R) := by
  obtain ⟨x, hx, hexact⟩ := h.exists_mem
  have htf : A.trapframe ∈ ram sym := by
    have h' := h.perm (by rw [Space.pages]; abel : _ = own A.trapframe + (tree 2 A.root A.entry
      + (umem A.entry A.mem (npages A.size) + R)))
    exact h'.mem
  have hwp : wp (fun _ => False) (exec sym (.of A name) file path argv) (fun res s' =>
      (res.1 = none → res.2 = .of A name ∧ Unchanged sym s s') ∧
      ∀ argc, res.1 = some argc → argc = argv.length ∧
        ∃ (ip : Fs.File) (C : Space sym) (guard : ℕ), file = some ip ∧
        res.2 = .of C (programName path) ∧ C.trapframe = A.trapframe ∧ Loaded ip C guard ∧
        Owned sym s' (C.pages + R)) s := by
    rw [exec, wp_bind]
    apply wp_prepare hsize htf hexact hargs hlen
    · intro s' h'
      exact ⟨fun _ => ⟨rfl, hexact.unchanged h'⟩, by rintro _ ⟨⟩⟩
    · intro s' ip C n entry sp hfile hC hload h'
      have hframe : Owned sym s' (tree 2 C.root C.entry
          + (umem C.entry C.mem (npages C.size) + (A.pages + R))) := by
        refine h'.mono (Set.add_subset_add_left (Set.add_subset_add_left ?_))
        exact Set.singleton_subset_iff.mpr hx
      dsimp only
      rw [wp_bind]
      apply wp_commit hC hframe
      intro s'' h''
      refine ⟨by rintro ⟨⟩, ?_⟩
      rintro argc ⟨⟩
      refine ⟨rfl, ip, C, n, hfile, ?_, hC, hload, h''⟩
      rw [Task.of, hC]
  obtain ⟨⟨r, p'⟩, s', hrun, hfail, hok⟩ := hwp.exists_run
  exact ⟨r, p', s', hrun, hfail, hok⟩

/-- A file with one program header, for four bytes at address 0. -/
def fourBytes : Fs.File where
  type := 2
  major := 0
  minor := 0
  nlink := 1
  size := 124
  content a := if a = 0 then 0x7f else if a = 1 then 0x45 else if a = 2 then 0x4c
    -- phoff, phnum; then type, off, filesz and memsz of the header; then the bytes
    else if a = 3 then 0x46 else if a = 32 then 64 else if a = 56 then 1
    else if a = 64 then 1 else if a = 72 then 120 else if a = 96 then 4 else if a = 104 then 8
    else if 120 ≤ a then UInt8.ofNat a else 0

/-- Once the new image is prepared, `exec` succeeds. -/
lemma exec_of_prepare {t : Task} {file : Option Fs.File} {path : List UInt8} {img : Image}
    {s₁ s' : State} {r : Option ℕ} {t' : Task}
    (hprep : (prepare sym t.trapframe file argv).run s = .ok (some img, s₁))
    (hrun : (exec sym t file path argv).run s = .ok ((r, t'), s')) : r = some img.argc := by
  have hwp : wp (fun _ => True) (exec sym t file path argv) (fun res _ => res.1 = some img.argc)
      s := by
    rw [exec, wp_bind]
    apply wp_of_run hprep
    dsimp only
    rw [wp_bind]
    exact wp_true.mono fun _ _ _ => rfl
  exact hwp.returns hrun

/-- A process of one page becomes a program with two argument strings. -/
theorem exec_all_or_nothing_small : ∃ (s : State) (A : Space small),
    Owned small s (A.pages + 0) ∧ A.size = 4096 ∧
    ∃ (p' : Task) (s' : State) (C : Space small) (guard : ℕ),
      (exec small (.of A []) (some fourBytes) [47, 97] [[97], [98]]).run s
        = .ok ((some 2, p'), s') ∧ p' = .of C [97] ∧ Loaded fourBytes C guard := by
  have hboot := run_eq_after (s := blank []) (c := firstProcess small 4096)
    (a := (557055 * PGSIZE, 557054 * PGSIZE)) (by decide +kernel)
  have hprep := run_eq_after (s := after (firstProcess small 4096) (blank []))
    (c := prepare small (557055 * PGSIZE) (some fourBytes) [[97], [98]])
    (a := some ⟨557048 * PGSIZE, 12288, 0, 2, 12224⟩) (by decide +kernel)
  obtain ⟨A, hr, hsize, h⟩ := (wp_firstProcess (by decide)).returns hboot
  obtain ⟨r, p', s', hrun, -, hok⟩ := exec_all_or_nothing A h [] (some fourBytes) (by decide)
    [47, 97] [[97], [98]] (by decide) (by decide)
  rw [(Prod.mk.inj hr).1] at hprep
  obtain rfl : r = some 2 := exec_of_prepare (t := .of A []) hprep hrun
  obtain ⟨-, ip, C, guard, hip, hp', -, hload, -⟩ := hok 2 rfl
  obtain rfl : fourBytes = ip := Option.some.inj hip
  exact ⟨_, A, h, hsize, p', s', C, guard, hrun, hp', hload⟩

end Xv6.Exec
