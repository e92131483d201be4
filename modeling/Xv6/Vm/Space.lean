import Xv6.Vm.Walk

/-!
# Address spaces

The functions of `kernel/vm.c` and `kernel/proc.c` that make, grow, copy, shrink and free the memory
of a process. Where one of them fails for want of memory, it leaves the entries of the page tables
as they were.
-/

namespace Xv6.Vm

open Core Coroutine Assn
open scoped Pointwise

variable {sym : Symbols} {s : State} {R : Assn ℕ Page} {F : Panic → Prop} {p q : ℕ} {c : Page}
  {l : ℕ} {Φ Ψ : ℕ → ℕ}

/-! ### Sizes -/

/-- The pages that `sz` bytes take. -/
def npages (sz : ℕ) : ℕ := (sz + PGSIZE - 1) / PGSIZE

variable {sz : ℕ}

lemma PGROUNDUP_eq (h : sz ≤ MAXVA) : PGROUNDUP sz = npages sz * PGSIZE := by
  rw [MAXVA_eq] at h
  have hlt : sz + PGSIZE - 1 < 2 ^ 64 := by
    rw [PGSIZE]
    omega
  rw [PGROUNDUP, Nat.mod_eq_of_lt hlt, npages]

lemma npages_mul (n : ℕ) : npages (n * PGSIZE) = n := by
  rw [npages, PGSIZE]
  omega

lemma le_npages_iff {n : ℕ} : npages sz ≤ n ↔ sz ≤ n * PGSIZE := by
  rw [npages, PGSIZE]
  omega

lemma lt_npages_iff {n : ℕ} : n < npages sz ↔ n * PGSIZE < sz := by
  rw [← not_le, le_npages_iff, not_le]

lemma npages_mono {sz' : ℕ} (h : sz ≤ sz') : npages sz ≤ npages sz' := by
  rw [le_npages_iff]
  exact h.trans (le_npages_iff.mp le_rfl)

/-! ### Freeing page tables -/

lemma pointer_and_RWX (q : ℕ) : (q * 1024 + PTE_V) &&& (PTE_R ||| PTE_W ||| PTE_X) = 0 := by
  have hmod : (q * 1024 + PTE_V) % 1024 = 1 := by
    rw [PTE_V]
    omega
  rw [and_flags _ (by decide), hmod]
  decide

/-- A page table without leaves is given back. -/
lemma wp_freewalk {Q : PUnit → State → Prop} (h : Owned sym s (tree l p Φ + R))
    (hΦ : ∀ v < 512 ^ (l + 1), Φ v = 0) (hQ : ∀ s', Owned sym s' R → Q ⟨⟩ s') :
    wp F (freewalk sym (l + 1) (p * PGSIZE)) Q s := by
  induction l generalizing s p Φ R Q with
  | zero =>
    obtain ⟨l, x, hx, y, ⟨z, ⟨c, hz, hc⟩, r, hr, rfl⟩, heq⟩ := h
    have hown : Owned sym s (pts p c + R) := ⟨l, x, hx, _, ⟨z, hz, r, hr, rfl⟩, heq⟩
    rw [freewalk, wp_bind]
    apply wp_forM_of_eq_range indices_eq fun _ s => Owned sym s (pts p c + R)
    · exact hown
    · intro i hi s₁ h₁
      rw [wp_bind]
      apply wp_load h₁ hi
      have hzero : c.word i = 0 := by rw [hc i hi, hΦ i (by rwa [zero_add, pow_one])]
      rw [hzero, if_neg (by decide), if_neg (by decide)]
      exact h₁
    · intro s₁ h₁
      exact wp_kfree (h₁.mono_left (pts_subset_own p c)) hQ
  | succ l ih =>
    rw [freewalk, wp_bind]
    -- the entries from `i` on are as they were
    apply wp_forM_of_eq_range indices_eq fun i s => ∃ c, Owned sym s (pts p c
      + (∑ j ∈ Finset.Ico i 512,
        sub (tree l) (512 ^ (l + 1)) (c.word j) (fun v => Φ (j * 512 ^ (l + 1) + v)) + R))
    · obtain ⟨c, hc⟩ := h.exists_left
      refine ⟨c, ?_⟩
      rw [indices_eq, List.toFinset_range, Finset.range_eq_Ico, add_assoc] at hc
      exact hc
    · rintro i hi s₁ ⟨c, h₁⟩
      rw [wp_bind]
      apply wp_load h₁ hi
      rw [Finset.sum_eq_sum_Ico_succ_bot hi, add_assoc, add_left_comm] at h₁
      rcases h₁.sub_cases with ⟨hw, -, hrest⟩ | ⟨q, hw, htree⟩
      · rw [hw, if_neg (by decide), if_neg (by decide)]
        exact ⟨c, hrest⟩
      · rw [hw, if_pos ⟨pointer_and_V q, pointer_and_RWX q⟩, wp_bind, pointer_pa]
        apply ih htree
        · exact fun v hv => hΦ _ (index_lt hi hv)
        intro s₂ h₂
        apply wp_store h₂ hi
        intro s₃ h₃
        refine ⟨c.setWord i 0, ?_⟩
        have hsum : ∑ j ∈ Finset.Ico (i + 1) 512, sub (tree l) (512 ^ (l + 1))
            ((c.setWord i 0).word j) (fun v => Φ (j * 512 ^ (l + 1) + v))
            = ∑ j ∈ Finset.Ico (i + 1) 512,
            sub (tree l) (512 ^ (l + 1)) (c.word j) (fun v => Φ (j * 512 ^ (l + 1) + v)) := by
          apply Finset.sum_congr rfl
          intro j hj
          have hne : j ≠ i := by
            have := (Finset.mem_Ico.mp hj).1
            omega
          rw [Page.word_setWord_of_ne _ _ hne]
        rw [hsum]
        exact h₃
    · rintro s₁ ⟨c, h₁⟩
      rw [Finset.Ico_self, Finset.sum_empty, zero_add] at h₁
      exact wp_kfree (h₁.mono_left (pts_subset_own p c)) hQ

variable {Q : ℕ → State → Prop}

/-- An empty page table, unless memory is short. -/
lemma wp_uvmcreate (h : Owned sym s R) (hfail : ∀ s', Owned sym s' R → Q 0 s')
    (hok : ∀ p s', p ∈ ram sym → Owned sym s' (tree 2 p (fun _ => 0) + R) → Q (p * PGSIZE) s') :
    wp F uvmcreate Q s := by
  rw [uvmcreate, wp_bind]
  apply wp_kalloc h
  · intro s₁ h₁
    rw [if_pos rfl]
    exact hfail s₁ h₁
  intro p s₁ hp h₁
  have hne : p * PGSIZE ≠ 0 := Nat.mul_ne_zero (pos_of_mem_ram hp).ne' (by decide)
  rw [if_neg hne, wp_bind]
  apply wp_memset h₁
  intro s₂ h₂
  exact hok p s₂ hp (h₂.mono_left (pts_zero_subset_tree fun _ _ => rfl))

/-! ### Growing and shrinking -/

/-- Only the entries of `[a, b)` may differ, where there are leaves. -/
structure Filled (Φ Ψ : ℕ → ℕ) (a b : ℕ) : Prop where
  out : ∀ v, ¬(a ≤ v ∧ v < b) → Ψ v = Φ v
  leaf : ∀ v, a ≤ v → v < b → Leaf (Ψ v)

/-- Where the leaves were added to nothing, they can be taken away again. -/
lemma Filled.cleared {a b : ℕ} (h : Filled Φ Ψ a b) (hΦ : ∀ v, a ≤ v → v < b → Φ v = 0) :
    cleared Ψ a b = Φ := by
  funext v
  rw [Vm.cleared]
  split
  · next hv => exact (hΦ v hv.1 hv.2).symm
  · next hv => exact h.out v hv

/-- The user memory from the page `n'` on is given back. -/
lemma wp_uvmdealloc {oldsz newsz : ℕ} (hsz : oldsz ≤ MAXVA)
    (h : Owned sym s (tree 2 p Φ
      + (∑ u ∈ Finset.Ico (npages newsz) (npages oldsz), own (Φ u / 1024) + R)))
    (hΦ : ∀ u, npages newsz ≤ u → u < npages oldsz → Leaf (Φ u))
    (hpages : npages oldsz * PGSIZE ≤ MAXVA)
    (hQ : ∀ s', Owned sym s' (tree 2 p (cleared Φ (npages newsz) (npages oldsz)) + R) →
      Q (min oldsz newsz) s') :
    wp F (uvmdealloc sym (p * PGSIZE) oldsz newsz) Q s := by
  rw [uvmdealloc]
  -- when no page is given back
  have hsame : npages oldsz ≤ npages newsz → Q (min oldsz newsz) s := by
    intro hle
    have hclear : cleared Φ (npages newsz) (npages oldsz) = Φ := by
      funext v
      rw [cleared, if_neg (by omega)]
    apply hQ
    rw [hclear]
    rwa [Finset.Ico_eq_empty_of_le hle, Finset.sum_empty, zero_add] at h
  apply wp_ite
  · intro hle
    have hQs := hsame (npages_mono hle)
    rwa [min_eq_left hle] at hQs
  intro hlt
  have hmin : min oldsz newsz = newsz := min_eq_right (by omega)
  rw [hmin] at hQ hsame
  rw [PGROUNDUP_eq hsz, PGROUNDUP_eq (by omega : newsz ≤ MAXVA)]
  apply wp_ite
  · intro hpg
    have hpages' : npages newsz < npages oldsz := Nat.lt_of_mul_lt_mul_right hpg
    obtain ⟨k, hk⟩ := Nat.exists_eq_add_of_le hpages'.le
    rw [hk] at h hΦ hpages hQ ⊢
    rw [← Nat.sub_mul, Nat.add_sub_cancel_left, Nat.mul_div_cancel _ PGSIZE_pos, wp_bind]
    exact wp_uvmunmap_free h hpages hΦ hQ
  · intro hpg
    apply hsame
    exact Nat.le_of_mul_le_mul_right (by omega) PGSIZE_pos

end Xv6.Vm
