import Xv6.Vm.Space

/-!
# User memory

The address space of a process: a page table with leaves for the pages of the user memory, for the
trampoline and for the trapframe, and the contents of the user pages. The functions that grow and
shrink user memory and copy to it are specified by what they do to these contents, whatever the
other pages of the memory are.
-/

namespace Xv6.Vm

open Core Coroutine Assn
open scoped Pointwise

/-- The number of the page of a virtual address. -/
def trampolinePage : ℕ := TRAMPOLINE / PGSIZE

def trapframePage : ℕ := TRAPFRAME / PGSIZE

lemma trampolinePage_eq : trampolinePage = 67108863 := rfl

lemma trapframePage_eq : trapframePage = 67108862 := rfl

/-- The entries of a process with `n` pages of user memory and the trapframe `tf`. -/
structure UserMap (sym : Symbols) (tf n : ℕ) (Φ : ℕ → ℕ) : Prop where
  le : n ≤ trapframePage
  user : ∀ v < n, Leaf (Φ v)
  trampoline : Φ trampolinePage = sym.trampoline / PGSIZE * 1024 + (PTE_R ||| PTE_X ||| PTE_V)
  trapframe : Φ trapframePage = tf / PGSIZE * 1024 + (PTE_R ||| PTE_W ||| PTE_V)
  unmapped : ∀ v, n ≤ v → v ≠ trampolinePage → v ≠ trapframePage → Φ v = 0

/-- The pages behind the first `n` virtual pages, with their contents. -/
def umem (Φ : ℕ → ℕ) (M : ℕ → Page) (n : ℕ) : Assn ℕ Page :=
  ∑ v ∈ Finset.range n, pts (Φ v / 1024) (M v)

variable {sym : Symbols} {s : State} {R : Assn ℕ Page} {F : Panic → Prop} {p tf n : ℕ}
  {Φ Ψ : ℕ → ℕ} {M M' : ℕ → Page}

/-! ### Contents -/

lemma umem_zero (Φ : ℕ → ℕ) (M : ℕ → Page) : umem Φ M 0 = 0 := Finset.sum_range_zero _

lemma umem_succ (Φ : ℕ → ℕ) (M : ℕ → Page) (n : ℕ) :
    umem Φ M (n + 1) = umem Φ M n + pts (Φ n / 1024) (M n) := Finset.sum_range_succ _ _

lemma umem_congr (hΦ : ∀ v < n, Φ v = Ψ v) (hM : ∀ v < n, M v = M' v) :
    umem Φ M n = umem Ψ M' n := by
  apply Finset.sum_congr rfl
  intro v hv
  rw [hΦ v (Finset.mem_range.mp hv), hM v (Finset.mem_range.mp hv)]

/-- The pages from `m` on are separate from those before. -/
lemma umem_split {m : ℕ} (h : m ≤ n) : umem Φ M n
    = umem Φ M m + ∑ v ∈ Finset.Ico m n, pts (Φ v / 1024) (M v) :=
  (Finset.sum_range_add_sum_Ico _ h).symm

variable {v newsz : ℕ} {Q : ℕ → State → Prop}

/-- One page is taken out. -/
lemma umem_erase (hv : v < n) :
    umem Φ M n = pts (Φ v / 1024) (M v) + ∑ u ∈ (Finset.range n).erase v, pts (Φ u / 1024) (M u) :=
  (Finset.add_sum_erase _ _ (Finset.mem_range.mpr hv)).symm

/-- One page is put back with other contents. -/
lemma umem_update (hv : v < n) (c : Page) :
     umem Φ (Function.update M v c) n =
      pts (Φ v / 1024) c + ∑ u ∈ (Finset.range n).erase v, pts (Φ u / 1024) (M u) := by
  rw [umem_erase hv, Function.update_self]
  congr 1
  apply Finset.sum_congr rfl
  intro u hu
  rw [Function.update_of_ne (Finset.ne_of_mem_erase hu)]

lemma sum_pts_subset_sum_own (D : Finset ℕ) (f : ℕ → ℕ) (M : ℕ → Page) :
    ∑ v ∈ D, pts (f v) (M v) ⊆ ∑ v ∈ D, own (f v) :=
  Set.finsetSum_subset_finsetSum _ _ _ fun v _ => pts_subset_own (f v) (M v)

/-- A process has no more pages than there are. -/
lemma Owned.npages_le (h : Owned sym s (umem Φ M n + R)) : n ≤ 32768 := by
  obtain ⟨l, hl⟩ := h.mono_left (sum_pts_subset_sum_own _ _ _)
  have hcard := (hl.perm (add_left_comm _ _ _)).card_le
  have hkend := sym.le_kend
  have hkend' := sym.kend_le
  rw [PHYSTOP_eq] at hkend'
  rw [KERNBASE_eq] at hkend
  rw [Finset.card_range, ram, Nat.card_Ico, PHYSTOP_eq, PGROUNDUP] at hcard
  simp only [PGSIZE] at hcard
  omega

/-! ### Growing -/

/-- The flags of a page of user memory. -/
def userFlags : ℕ := PTE_W ||| PTE_X ||| PTE_R ||| PTE_U ||| PTE_V

/-- Leaves are added in `[a, b)`, which allow everything to the user. -/
structure Grown (Φ Ψ : ℕ → ℕ) (a b : ℕ) : Prop where
  out : ∀ v, ¬(a ≤ v ∧ v < b) → Ψ v = Φ v
  flags : ∀ v, a ≤ v → v < b → Ψ v % 1024 = userFlags

lemma leaf_of_userFlags {w : ℕ} (h : w % 1024 = userFlags) : Leaf w := by
  constructor
  · rw [and_flags _ (by decide), h]
    decide
  · rw [and_flags _ (by decide), h]
    decide

namespace Grown

lemma refl (Φ : ℕ → ℕ) (a : ℕ) : Grown Φ Φ a a := ⟨fun _ _ => rfl, fun v h h' => by omega⟩

lemma filled {a b : ℕ} (h : Grown Φ Ψ a b) : Filled Φ Ψ a b :=
  ⟨h.out, fun v hv hv' => leaf_of_userFlags (h.flags v hv hv')⟩

/-- One more page. -/
lemma snoc {a b q : ℕ} (h : Grown Φ Ψ a b) (hab : a ≤ b) :
    Grown Φ (Function.update Ψ b (q * 1024 + userFlags)) a (b + 1) := by
  refine ⟨?_, ?_⟩
  · intro v hv
    rw [Function.update_of_ne (by omega)]
    exact h.out v (by omega)
  · intro v hav hvb
    rcases eq_or_ne v b with rfl | hne
    · have hlt : userFlags < 1024 := by decide
      rw [Function.update_self]
      omega
    · rw [Function.update_of_ne hne]
      exact h.flags v hav (by omega)

lemma userMap {b : ℕ} (h : Grown Φ Ψ n b) (hmap : UserMap sym tf n Φ) (hnb : n ≤ b)
    (hb : b ≤ trapframePage) : UserMap sym tf b Ψ where
  le := hb
  user v hv := by
    by_cases hvn : v < n
    · rw [h.out v (by omega)]
      exact hmap.user v hvn
    · exact leaf_of_userFlags (h.flags v (by omega) hv)
  trampoline := by
    rw [h.out _ (by rw [trampolinePage_eq]; rw [trapframePage_eq] at hb; omega)]
    exact hmap.trampoline
  trapframe := by
    rw [h.out _ (by omega)]
    exact hmap.trapframe
  unmapped v hv h₁ h₂ := by
    rw [h.out v (by omega)]
    exact hmap.unmapped v (by omega) h₁ h₂

end Grown

/-- The first `n` pages, and cleared pages after them. -/
def extend (M : ℕ → Page) (n : ℕ) : ℕ → Page := fun v => if v < n then M v else .fill 0

lemma extend_of_lt (hv : v < n) : extend M n v = M v := if_pos hv

lemma extend_of_le (hv : n ≤ v) : extend M n v = .fill 0 := if_neg (by omega)

lemma umem_extend : umem Φ (extend M n) n = umem Φ M n :=
  umem_congr (fun _ _ => rfl) fun _ hv => extend_of_lt hv

/-- The pages added by `uvmalloc` are taken away again. -/
lemma wp_dealloc_grown (hmap : UserMap sym tf n Φ) (hg : Grown Φ Ψ n v) (hnv : n ≤ v)
    (hv : v ≤ 32768) (h : Owned sym s (tree 2 p Ψ + (umem Ψ (extend M n) v + R)))
    (hQ : ∀ r s', Owned sym s' (tree 2 p Φ + (umem Φ M n + R)) → Q r s') :
    wp F (uvmdealloc sym (p * PGSIZE) (v * PGSIZE) (n * PGSIZE)) Q s := by
  have hpages : v * PGSIZE ≤ MAXVA := by
    rw [MAXVA_eq]
    simp only [PGSIZE]
    omega
  have hsame : umem Ψ M n = umem Φ M n :=
    umem_congr (fun u hu => hg.out u (by omega)) fun _ _ => rfl
  have hsplit : Owned sym s (tree 2 p Ψ
      + (∑ u ∈ Finset.Ico n v, own (Ψ u / 1024) + (umem Φ M n + R))) := by
    rw [umem_split hnv, umem_extend, hsame] at h
    have h' := (h.perm (by abel : _ = ∑ u ∈ Finset.Ico n v, pts (Ψ u / 1024) (extend M n u)
      + (tree 2 p Ψ + (umem Φ M n + R)))).mono_left (sum_pts_subset_sum_own _ _ _)
    exact h'.perm (add_left_comm _ _ _)
  have hzero : cleared Ψ n v = Φ := by
    apply hg.filled.cleared
    intro u hu hu'
    apply hmap.unmapped u hu
    · rw [trampolinePage_eq]
      omega
    · rw [trapframePage_eq]
      omega
  refine wp_uvmdealloc (Φ := Ψ) (R := umem Φ M n + R) hpages ?_ ?_ ?_ ?_
  · rwa [npages_mul, npages_mul]
  · rw [npages_mul, npages_mul]
    exact hg.filled.leaf
  · rwa [npages_mul]
  · intro s' h'
    rw [npages_mul, npages_mul, hzero] at h'
    exact hQ _ s' h'

/-- The rounds of `uvmalloc` from the page `v` on. -/
lemma wp_uvmallocFrom {fuel : ℕ} (hmap : UserMap sym tf n Φ)
    (hg : Grown Φ Ψ n v) (hnv : n ≤ v) (hnew : v ≤ npages newsz) (hfuel : npages newsz ≤ v + fuel)
    (h : Owned sym s (tree 2 p Ψ + (umem Ψ (extend M n) v + R)))
    (hfail : ∀ s', Owned sym s' (tree 2 p Φ + (umem Φ M n + R)) → Q 0 s')
    (hok : ∀ s' Ψ', Grown Φ Ψ' n (npages newsz) →
      Owned sym s' (tree 2 p Ψ' + (umem Ψ' (extend M n) (npages newsz) + R)) → Q newsz s') :
    wp F (uvmallocFrom sym (p * PGSIZE) (n * PGSIZE) newsz fuel (v * PGSIZE)) Q s := by
  induction fuel generalizing s v Ψ with
  | zero =>
    obtain rfl : v = npages newsz := by omega
    exact hok s Ψ hg h
  | succ fuel ih =>
    have hv : v ≤ 32768 := (h.perm (add_left_comm _ _ _)).npages_le
    rw [uvmallocFrom]
    apply wp_ite
    swap
    · intro hlt
      obtain rfl : v = npages newsz := by
        have : npages newsz ≤ v ↔ newsz ≤ v * PGSIZE := le_npages_iff
        omega
      exact hok s Ψ hg h
    intro hlt
    have hvn : v < npages newsz := lt_npages_iff.mpr hlt
    have hva : v * PGSIZE < MAXVA := by
      rw [MAXVA_eq]
      simp only [PGSIZE]
      omega
    have hzero : Ψ v = 0 := by
      rw [hg.out v (by omega)]
      exact hmap.unmapped v hnv (by rw [trampolinePage_eq]; omega)
        (by rw [trapframePage_eq]; omega)
    rw [wp_bind]
    apply wp_kalloc h
    · intro s₁ h₁
      rw [if_pos rfl, wp_bind]
      exact wp_dealloc_grown hmap hg hnv hv h₁ fun _ s₂ h₂ => hfail s₂ h₂
    intro q s₁ hq h₁
    have hne : q * PGSIZE ≠ 0 := Nat.mul_ne_zero (pos_of_mem_ram hq).ne' (by decide)
    rw [if_neg hne, wp_bind]
    apply wp_memset h₁
    intro s₂ h₂
    rw [add_left_comm] at h₂
    rw [wp_bind]
    apply wp_mappages h₂ hva hzero (lt_of_mem_ram' hq) (by decide)
    · intro s₃ h₃
      rw [if_neg (by decide), wp_bind]
      have hpage := (h₃.perm (add_left_comm _ _ _)).mono_left (pts_subset_own q _)
      apply wp_kfree hpage
      intro s₄ h₄
      rw [wp_bind]
      exact wp_dealloc_grown hmap hg hnv hv h₄ fun _ s₅ h₅ => hfail s₅ h₅
    · intro s₃ h₃
      rw [if_pos rfl, ← Nat.succ_mul]
      refine ih (hg.snoc (q := q) hnv) (by omega) hvn (by omega) ?_
      have hdiv : (q * 1024 + userFlags) / 1024 = q := by
        have : userFlags < 1024 := by decide
        omega
      have hsame : umem (Function.update Ψ v (q * 1024 + userFlags)) (extend M n) v
          = umem Ψ (extend M n) v :=
        umem_congr (fun u hu => Function.update_of_ne (by omega) _ _) fun _ _ => rfl
      rw [Nat.succ_eq_add_one, umem_succ, Function.update_self, hdiv, extend_of_le hnv, hsame]
      exact h₃.perm (by rw [userFlags]; abel)

/-- `uvmalloc` adds cleared pages for the user, or leaves the user memory as it was. -/
lemma wp_uvmalloc {oldsz : ℕ} (hmap : UserMap sym tf n Φ)
    (hn : npages oldsz = n) (h : Owned sym s (tree 2 p Φ + (umem Φ M n + R)))
    (hless : newsz < oldsz → Q oldsz s)
    (hfail : ∀ s', oldsz ≤ newsz → Owned sym s' (tree 2 p Φ + (umem Φ M n + R)) → Q 0 s')
    (hok : ∀ s' Ψ, oldsz ≤ newsz → Grown Φ Ψ n (npages newsz) →
      Owned sym s' (tree 2 p Ψ + (umem Ψ (extend M n) (npages newsz) + R)) → Q newsz s') :
    wp F (uvmalloc sym (p * PGSIZE) oldsz newsz) Q s := by
  have hle : n ≤ 32768 := (h.perm (add_left_comm _ _ _)).npages_le
  have hold : oldsz ≤ MAXVA := by
    have := le_npages_iff.mp (hn.le.trans hle)
    rw [MAXVA_eq]
    simp only [PGSIZE] at this
    omega
  rw [uvmalloc]
  apply wp_ite hless
  intro hlt
  rw [PGROUNDUP_eq hold, hn]
  refine wp_uvmallocFrom hmap (.refl Φ n) le_rfl ?_ ?_ ?_ (fun s' => hfail s' (by omega))
    fun s' Ψ => hok s' Ψ (by omega)
  · rw [← hn]
    exact npages_mono (by omega)
  · rw [npages]
    simp only [PGSIZE]
    omega
  · rwa [umem_extend]

/-! ### Shrinking and freeing -/

lemma Owned.sz_le {sz : ℕ} (h : Owned sym s (umem Φ M n + R)) (hn : npages sz = n) :
    sz ≤ 134217728 := by
  have hle := le_npages_iff.mp (hn.le.trans h.npages_le)
  rwa [PGSIZE] at hle

/-- The user pages from `m` on can be unmapped and freed. -/
lemma Owned.own_Ico {m : ℕ} (h : Owned sym s (tree 2 p Φ + (umem Φ M n + R))) (hm : m ≤ n) :
    Owned sym s (tree 2 p Φ + (∑ u ∈ Finset.Ico m n, own (Φ u / 1024) + (umem Φ M m + R))) := by
  rw [umem_split hm] at h
  have h' := (h.perm (by abel : _ = ∑ u ∈ Finset.Ico m n, pts (Φ u / 1024) (M u)
    + (tree 2 p Φ + (umem Φ M m + R)))).mono_left (sum_pts_subset_sum_own _ _ _)
  exact h'.perm (add_left_comm _ _ _)

lemma UserMap.cleared {m : ℕ} (hmap : UserMap sym tf n Φ) (hm : m ≤ n) :
    UserMap sym tf m (cleared Φ m n) := by
  have hle := hmap.le
  refine ⟨by omega, ?_, ?_, ?_, ?_⟩
  · intro v hv
    rw [Vm.cleared, if_neg (by omega)]
    exact hmap.user v (by omega)
  · rw [Vm.cleared, if_neg (by rw [trapframePage_eq] at hle; rw [trampolinePage_eq]; omega)]
    exact hmap.trampoline
  · rw [Vm.cleared, if_neg (by omega)]
    exact hmap.trapframe
  · intro v hv h₁ h₂
    rw [Vm.cleared]
    split
    · rfl
    · exact hmap.unmapped v (by omega) h₁ h₂

/-- `uvmdealloc` takes away the pages beyond the new size, if it is smaller. -/
lemma wp_uvmdealloc_user {oldsz : ℕ} (hmap : UserMap sym tf n Φ)
    (hn : npages oldsz = n) (h : Owned sym s (tree 2 p Φ + (umem Φ M n + R)))
    (hQ : ∀ s' Ψ, UserMap sym tf (npages (min oldsz newsz)) Ψ →
      (∀ v < npages (min oldsz newsz), Ψ v = Φ v) →
      Owned sym s' (tree 2 p Ψ + (umem Ψ M (npages (min oldsz newsz)) + R)) →
      Q (min oldsz newsz) s') :
    wp F (uvmdealloc sym (p * PGSIZE) oldsz newsz) Q s := by
  have hold : oldsz ≤ 134217728 := (h.perm (add_left_comm _ _ _)).sz_le hn
  rcases Nat.le_total oldsz newsz with hle | hle
  · rw [min_eq_left hle, hn] at hQ
    rw [uvmdealloc, if_pos hle]
    exact hQ s Φ hmap (fun _ _ => rfl) h
  rw [min_eq_right hle] at hQ
  have hpages : npages newsz ≤ n := hn ▸ npages_mono hle
  have hmax : n ≤ 32768 := (h.perm (add_left_comm _ _ _)).npages_le
  have hsame : ∀ v < npages newsz, cleared Φ (npages newsz) n v = Φ v := by
    intro v hv
    rw [cleared, if_neg (by omega)]
  refine wp_uvmdealloc (Φ := Φ) (R := umem Φ M (npages newsz) + R) (by rw [MAXVA_eq]; omega) ?_ ?_
    ?_ ?_
  · rw [hn]
    exact h.own_Ico hpages
  · rw [hn]
    exact fun u _ hu => hmap.user u hu
  · rw [hn, MAXVA_eq]
    simp only [PGSIZE]
    omega
  · intro s' h'
    rw [hn] at h'
    rw [min_eq_right hle]
    refine hQ s' _ (hmap.cleared hpages) hsame ?_
    rwa [umem_congr hsame fun _ _ => rfl]

/-- All user memory and the page table are given back. -/
lemma wp_uvmfree {Q : PUnit → State → Prop} {sz : ℕ} (hn : npages sz = n)
    (hle : ∀ v < n, Leaf (Φ v)) (hzero : ∀ v, n ≤ v → Φ v = 0)
    (h : Owned sym s (tree 2 p Φ + (umem Φ M n + R))) (hQ : ∀ s', Owned sym s' R → Q ⟨⟩ s') :
    wp F (uvmfree sym (p * PGSIZE) sz) Q s := by
  have hsz : sz ≤ 134217728 := (h.perm (add_left_comm _ _ _)).sz_le hn
  have hmax : n ≤ 32768 := (h.perm (add_left_comm _ _ _)).npages_le
  rw [uvmfree]
  apply wp_ite
  · intro _
    have hown := h.own_Ico (Nat.zero_le n)
    rw [umem_zero, zero_add] at hown
    rw [PGROUNDUP_eq (by rw [MAXVA_eq]; omega), hn, Nat.mul_div_cancel _ PGSIZE_pos, wp_bind,
      ← Nat.zero_mul PGSIZE]
    refine wp_uvmunmap_free (k := n) (by rwa [Nat.zero_add]) ?_ ?_ ?_
    · rw [MAXVA_eq]
      simp only [PGSIZE]
      omega
    · exact fun u _ hu => hle u (by omega)
    · intro s₁ h₁
      refine wp_freewalk h₁ ?_ hQ
      intro v _
      rw [cleared]
      split
      · rfl
      · exact hzero v (by omega)
  · intro hpos
    obtain rfl : n = 0 := by
      rw [← hn, show sz = 0 by omega]
      rfl
    rw [umem_zero, zero_add] at h
    exact wp_freewalk h (fun v _ => hzero v (Nat.zero_le v)) hQ

lemma leaf_trampoline (q : ℕ) : Leaf (q * 1024 + (PTE_R ||| PTE_X ||| PTE_V)) :=
  leaf_add (by decide) (by decide) (by decide)

lemma leaf_trapframe (q : ℕ) : Leaf (q * 1024 + (PTE_R ||| PTE_W ||| PTE_V)) :=
  leaf_add (by decide) (by decide) (by decide)

/-- `proc_freepagetable` gives back everything but the trapframe. -/
lemma wp_procFreepagetable {Q : PUnit → State → Prop} {sz : ℕ} (hmap : UserMap sym tf n Φ)
    (hn : npages sz = n) (h : Owned sym s (tree 2 p Φ + (umem Φ M n + R)))
    (hQ : ∀ s', Owned sym s' R → Q ⟨⟩ s') :
    wp F (procFreepagetable sym (p * PGSIZE) sz) Q s := by
  have hmax := hmap.le
  rw [trapframePage_eq] at hmax
  rw [procFreepagetable, wp_bind]
  apply wp_uvmunmap_one (v := trampolinePage) h (by decide)
  · rw [hmap.trampoline]
    exact leaf_trampoline _
  intro s₁ h₁
  rw [wp_bind]
  apply wp_uvmunmap_one (v := trapframePage) h₁ (by decide)
  · rw [Function.update_of_ne (by decide), hmap.trapframe]
    exact leaf_trapframe _
  intro s₂ h₂
  have hout : ∀ v < n, Function.update (Function.update Φ trampolinePage 0) trapframePage 0 v
      = Φ v := by
    intro v hv
    rw [Function.update_of_ne (by rw [trapframePage_eq]; omega),
      Function.update_of_ne (by rw [trampolinePage_eq]; omega)]
  rw [← umem_congr hout fun _ _ => rfl] at h₂
  refine wp_uvmfree hn ?_ ?_ h₂ hQ
  · intro v hv
    rw [hout v hv]
    exact hmap.user v hv
  · intro v hv
    rw [Function.update_apply, Function.update_apply]
    split_ifs with h₁ h₂
    · rfl
    · rfl
    · exact hmap.unmapped v hv h₂ h₁

/-- `proc_pagetable` makes an address space without user memory, or leaves no trace. -/
lemma wp_procPagetable (htf : PGSIZE ∣ tf) (htf' : tf < PHYSTOP)
    (h : Owned sym s R) (hfail : ∀ s', Owned sym s' R → Q 0 s')
    (hok : ∀ p s' Φ, p ∈ ram sym → UserMap sym tf 0 Φ → Owned sym s' (tree 2 p Φ + R) →
      Q (p * PGSIZE) s') :
    wp F (procPagetable sym tf) Q s := by
  have htrampoline := sym.trampoline_lt
  rw [PHYSTOP_eq] at htrampoline htf'
  have haddr : sym.trampoline = sym.trampoline / PGSIZE * PGSIZE :=
    (Nat.div_mul_cancel sym.dvd_trampoline).symm
  have haddr' : tf = tf / PGSIZE * PGSIZE := (Nat.div_mul_cancel htf).symm
  have hT : TRAMPOLINE = trampolinePage * PGSIZE := rfl
  have hTF : TRAPFRAME = trapframePage * PGSIZE := rfl
  -- a page table without entries is given back
  have hdrop : ∀ p s', Owned sym s' (tree 2 p (fun _ => 0) + R) →
      wp F (uvmfree sym (p * PGSIZE) 0) (fun _ s => Q 0 s) s' := by
    intro p s' h'
    refine wp_uvmfree (n := 0) (M := fun _ => .fill 0) rfl (by simp) (fun _ _ => rfl) ?_ hfail
    rwa [umem_zero, zero_add]
  rw [procPagetable, wp_bind]
  apply wp_uvmcreate h
  · intro s₁ h₁
    rw [if_pos rfl]
    exact hfail s₁ h₁
  intro p s₁ hp h₁
  have hne : p * PGSIZE ≠ 0 := Nat.mul_ne_zero (pos_of_mem_ram hp).ne' (by decide)
  rw [if_neg hne, wp_bind]
  rw [haddr, hT]
  refine wp_mappages h₁ (by decide) rfl (by rw [PGSIZE]; omega) (by decide) ?_ ?_
  · intro s₂ h₂
    rw [if_neg (by decide), wp_bind]
    exact hdrop p s₂ h₂
  intro s₂ h₂
  rw [if_pos rfl, wp_bind, haddr', hTF]
  refine wp_mappages h₂ (by decide) ?_ (by rw [PGSIZE]; omega) (by decide) ?_ ?_
  · rw [Function.update_of_ne (by decide)]
  · intro s₃ h₃
    rw [if_neg (by decide), wp_bind]
    apply wp_uvmunmap_one h₃ (by decide)
    · rw [Function.update_self]
      exact leaf_trampoline _
    intro s₄ h₄
    rw [Function.update_idem, Function.update_eq_self_iff.mpr rfl] at h₄
    rw [wp_bind]
    exact hdrop p s₄ h₄
  · intro s₃ h₃
    rw [if_pos rfl]
    refine hok p s₃ _ hp ?_ h₃
    refine ⟨by decide, by simp, ?_, ?_, ?_⟩
    · rw [Function.update_of_ne (by decide), Function.update_self]
    · rw [Function.update_self]
    · intro v _ h₁ h₂
      rw [Function.update_of_ne h₂, Function.update_of_ne h₁]

end Xv6.Vm
