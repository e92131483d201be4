import Xv6.Vm.Table

/-!
# The functions of vm.c

What the functions that use page tables do to the tables and to the pages that are mapped. None of
them panics.
-/

namespace Xv6.Vm

open Core Coroutine Assn
open scoped Pointwise

variable {sym : Symbols} {s : State} {R : Assn ℕ Page} {F : Panic → Prop} {p q : ℕ} {c : Page}
  {l va : ℕ} {Φ Ψ : ℕ → ℕ}

/-! ### Walking -/

/-- An entry of an upper level is empty or points to a table. -/
lemma Owned.sub_cases {T : ℕ → (ℕ → ℕ) → Assn ℕ Page} {n w : ℕ}
    (h : Owned sym s (sub T n w Φ + R)) :
    (w = 0 ∧ (∀ v < n, Φ v = 0) ∧ Owned sym s R) ∨
      ∃ q, w = q * 1024 + PTE_V ∧ Owned sym s (T q Φ + R) := by
  obtain ⟨l, x, hx, y, ⟨z, hz, r, hr, rfl⟩, heq⟩ := h
  rcases hz with ⟨hw, rfl, hΦ⟩ | ⟨q, hw, hq⟩
  · refine .inl ⟨hw, hΦ, l, x, hx, r, hr, ?_⟩
    rw [← heq]
    show x + r = x + (0 + r)
    rw [zero_add]
  · exact .inr ⟨q, hw, l, x, hx, _, ⟨z, hq, r, hr, rfl⟩, heq⟩

lemma pointer_and_V (q : ℕ) : (q * 1024 + PTE_V) &&& PTE_V ≠ 0 := by
  have hmod : (q * 1024 + PTE_V) % 1024 = 1 := by
    rw [PTE_V]
    omega
  rw [and_flags _ (by decide), hmod]
  decide

lemma pointer_pa (q : ℕ) : PTE2PA (q * 1024 + PTE_V) = q * PGSIZE := by
  have hdiv : (q * 1024 + PTE_V) / 1024 = q := by
    rw [PTE_V]
    omega
  rw [PTE2PA_eq, hdiv]

lemma others_setWord {i w : ℕ} : others l p (c.setWord i w) Φ i = pts p (c.setWord i w)
    + ∑ j ∈ indices.toFinset.erase i,
      sub (tree l) (512 ^ (l + 1)) (c.word j) fun v => Φ (j * 512 ^ (l + 1) + v) := by
  have hsum : ∑ j ∈ indices.toFinset.erase i,
      sub (tree l) (512 ^ (l + 1)) ((c.setWord i w).word j) (fun v => Φ (j * 512 ^ (l + 1) + v))
      = ∑ j ∈ indices.toFinset.erase i,
      sub (tree l) (512 ^ (l + 1)) (c.word j) (fun v => Φ (j * 512 ^ (l + 1) + v)) := by
    apply Finset.sum_congr rfl
    intro j hj
    rw [Page.word_setWord_of_ne _ _ (Finset.ne_of_mem_erase hj)]
  rw [others, hsum]

/-- Entries for pages below `2 ^ 56` are `uint64`s. -/
lemma entry_lt {f : ℕ} (hq : q < 2 ^ 44) (hf : f < 1024) : q * 1024 + f < 2 ^ 64 := by omega

lemma lt_of_mem_ram' (hq : q ∈ ram sym) : q < 2 ^ 44 := by
  have := lt_of_mem_ram hq
  omega

variable {Q : Option ℕ → State → Prop} {alloc : Bool}

/-- The entry of a virtual page is found, unless it is empty; with `alloc`, unless memory is
short. -/
lemma wp_walkFrom (h : Owned sym s (tree l p Φ + R))
    (hnone : ∀ s', (alloc = false → s' = s ∧ Φ (vpn l va) = 0) → Owned sym s' (tree l p Φ + R) →
      Q none s')
    (hsome : ∀ s' q c K, (alloc = false → s' = s) → Owned sym s' (pts q c + (K + R)) →
      Hole l p Φ (vpn l va) q c K → Q (some (q * PGSIZE + 8 * PX 0 va)) s') :
    wp F (walkFrom alloc l (p * PGSIZE) va) Q s := by
  induction l generalizing s p Φ R with
  | zero =>
    obtain ⟨l, x, hx, y, ⟨z, ⟨c, hz, hc⟩, r, hr, rfl⟩, heq⟩ := h
    have hown : Owned sym s (pts p c + (0 + R)) := by
      rw [zero_add]
      exact ⟨l, x, hx, _, ⟨z, hz, r, hr, rfl⟩, heq⟩
    exact hsome s p c 0 (fun _ => rfl) hown (hole_zero hc)
  | succ l ih =>
    have hi := PX_lt (l + 1) va
    have htable := h
    rw [tree_succ_eq hi] at htable
    obtain ⟨c, hc⟩ := htable.exists_left
    rw [add_assoc] at hc
    have hpage : Owned sym s (pts p c + (∑ j ∈ indices.toFinset.erase (PX (l + 1) va),
        sub (tree l) (512 ^ (l + 1)) (c.word j) (fun v => Φ (j * 512 ^ (l + 1) + v))
        + (sub (tree l) (512 ^ (l + 1)) (c.word (PX (l + 1) va))
          (fun v => Φ (PX (l + 1) va * 512 ^ (l + 1) + v)) + R))) := by
      apply hc.perm
      rw [others]
      abel
    -- the way down, once there is a table at the entry
    have hdown : ∀ s₁ c₁ q, (alloc = false → s₁ = s) →
        c₁.word (PX (l + 1) va) = q * 1024 + PTE_V →
        Owned sym s₁ (tree l q (fun v => Φ (PX (l + 1) va * 512 ^ (l + 1) + v))
          + (others l p c₁ Φ (PX (l + 1) va) + R)) →
        wp F (walkFrom alloc l (q * PGSIZE) va) Q s₁ := by
      intro s₁ c₁ q hs₁ hw₁ h₁
      apply ih h₁
      · intro s' hs' h'
        refine hnone s' ?_ ?_
        · intro halloc
          obtain ⟨rfl, hzero⟩ := hs' halloc
          rw [vpn_succ]
          exact ⟨hs₁ halloc, hzero⟩
        · rw [← add_assoc] at h'
          exact h'.mono_left (tree_add_others_subset hi hw₁)
      · intro s' q' c' K hs' h' hole
        exact hsome s' q' c' _ (fun halloc => (hs' halloc).trans (hs₁ halloc)) (h'.perm (by abel))
          (hole.succ hw₁)
    rw [walkFrom, wp_bind]
    apply wp_load hpage hi
    rcases hc.sub_cases with ⟨hw, hzero, hrest⟩ | ⟨q, hw, htree⟩
    swap
    · rw [hw, if_pos (pointer_and_V q), pointer_pa]
      exact hdown s c q (fun _ => rfl) hw htree
    rw [hw, if_neg (by decide)]
    cases alloc with
    | false =>
      apply hnone s _ h
      intro _
      rw [vpn_succ]
      exact ⟨rfl, hzero _ (vpn_lt l va)⟩
    | true =>
      rw [if_pos rfl, wp_bind]
      apply wp_kalloc hrest
      · intro s₁ h₁
        rw [if_pos rfl]
        exact hnone s₁ (fun h => by cases h) (h₁.mono_left (others_subset_tree hi hw hzero))
      intro q s₁ hq h₁
      have hne : q * PGSIZE ≠ 0 := Nat.mul_ne_zero (pos_of_mem_ram hq).ne' (by decide)
      rw [if_neg hne, wp_bind]
      apply wp_memset h₁
      intro s₂ h₂
      rw [others, add_assoc, add_left_comm] at h₂
      rw [wp_bind, PA2PTE_or (by decide)]
      apply wp_store h₂ hi
      intro s₃ h₃
      have hw₃ := Page.word_setWord_self c (q * 1024 + PTE_V) hi
      rw [Nat.mod_eq_of_lt (entry_lt (lt_of_mem_ram' hq) (by decide))] at hw₃
      apply hdown s₃ _ q (fun h => by cases h) hw₃
      rw [add_left_comm] at h₃
      rw [others_setWord, add_assoc]
      exact h₃.mono_left (pts_zero_subset_tree hzero)

/-! ### Mapping and unmapping a page -/

section Pages

variable {v : ℕ}

lemma vpn_two (hva : va < MAXVA) : vpn 2 va = va / PGSIZE := by
  rw [MAXVA_eq] at hva
  rw [vpn, Nat.mod_eq_of_lt]
  rw [PGSIZE]
  omega

/-- What `walk` finds for an address. -/
lemma wp_walk_addr
    (h : Owned sym s (tree 2 p Φ + R)) (hva : va < MAXVA)
    (hnone : ∀ s', (alloc = false → s' = s ∧ Φ (va / PGSIZE) = 0) →
      Owned sym s' (tree 2 p Φ + R) → Q none s')
    (hsome : ∀ s' q c K, (alloc = false → s' = s) → Owned sym s' (pts q c + (K + R)) →
      Hole 2 p Φ (va / PGSIZE) q c K → Q (some (q * PGSIZE + 8 * (va / PGSIZE % 512))) s') :
    wp F (walk (p * PGSIZE) va alloc) Q s := by
  have hvpn := vpn_two hva
  have hPX : PX 0 va = va / PGSIZE % 512 := by rw [PX_zero 2, hvpn]
  rw [walk, if_neg (by omega)]
  apply wp_walkFrom h
  · rw [hvpn]
    exact hnone
  · rw [hvpn, hPX]
    exact hsome

lemma wp_walk (h : Owned sym s (tree 2 p Φ + R))
    (hv : v * PGSIZE < MAXVA)
    (hnone : ∀ s', (alloc = false → s' = s ∧ Φ v = 0) → Owned sym s' (tree 2 p Φ + R) → Q none s')
    (hsome : ∀ s' q c K, (alloc = false → s' = s) → Owned sym s' (pts q c + (K + R)) →
      Hole 2 p Φ v q c K → Q (some (q * PGSIZE + 8 * (v % 512))) s') :
    wp F (walk (p * PGSIZE) (v * PGSIZE) alloc) Q s := by
  have hdiv : v * PGSIZE / PGSIZE = v := Nat.mul_div_cancel v PGSIZE_pos
  apply wp_walk_addr h hv
  · rw [hdiv]
    exact hnone
  · rw [hdiv]
    exact hsome

/-- The entries with those of the `k` virtual pages from `v` on replaced by entries for the physical
pages from `q` on. -/
def mapped (Φ : ℕ → ℕ) (v k q flags : ℕ) (u : ℕ) : ℕ :=
  if v ≤ u ∧ u < v + k then (q + (u - v)) * 1024 + flags else Φ u

lemma mapped_zero (q flags : ℕ) : mapped Φ v 0 q flags = Φ := by
  funext u
  rw [mapped, if_neg (by omega)]

lemma mapped_succ (k q flags : ℕ) : mapped Φ v (k + 1) q flags
    = mapped (Function.update Φ v (q * 1024 + flags)) (v + 1) k (q + 1) flags := by
  funext u
  rcases Nat.lt_trichotomy u v with hlt | rfl | hgt
  · rw [mapped, mapped, if_neg (by omega), if_neg (by omega), Function.update_of_ne (by omega)]
  · rw [mapped, mapped, if_pos (by omega), if_neg (by omega), Function.update_self, Nat.sub_self,
      Nat.add_zero]
  · rw [mapped, mapped, Function.update_of_ne (by omega)]
    apply if_congr (by omega) _ rfl
    rw [show q + 1 + (u - (v + 1)) = q + (u - v) by omega]

/-- The rounds of `mappages` map pages where nothing was, until memory is short. -/
lemma wp_mappagesFrom {Q : Bool → State → Prop} {q perm k fuel : ℕ}
    (h : Owned sym s (tree 2 p Φ + R)) (hv : (v + k) * PGSIZE < MAXVA)
    (hΦ : ∀ u, v ≤ u → u ≤ v + k → Φ u = 0) (hq : q + k < 2 ^ 44) (hperm : perm < 1024)
    (hfuel : k < fuel)
    (hfail : ∀ s' j, j ≤ k → Owned sym s' (tree 2 p (mapped Φ v j q (perm ||| PTE_V)) + R) →
      Q false s')
    (hok : ∀ s', Owned sym s' (tree 2 p (mapped Φ v (k + 1) q (perm ||| PTE_V)) + R) →
      Q true s') :
    wp F (mappagesFrom (p * PGSIZE) ((v + k) * PGSIZE) perm fuel (v * PGSIZE) (q * PGSIZE))
      Q s := by
  have hflags : perm ||| PTE_V < 1024 := Nat.or_lt_two_pow (n := 10) hperm (by decide)
  induction fuel generalizing s v q k Φ with
  | zero => omega
  | succ fuel ih =>
    have hentry : PA2PTE (q * PGSIZE) ||| perm ||| PTE_V = q * 1024 + (perm ||| PTE_V) := by
      rw [Nat.or_assoc, PA2PTE_or hflags]
    have hlt : v * PGSIZE < MAXVA :=
      Nat.lt_of_le_of_lt (Nat.mul_le_mul_right PGSIZE (Nat.le_add_right v k)) hv
    rw [mappagesFrom, wp_bind]
    apply wp_walk h hlt
    · intro s' _ h'
      rw [← mapped_zero (Φ := Φ) (v := v) q (perm ||| PTE_V)] at h'
      exact hfail s' 0 (by omega) h'
    intro s₁ q' c K _ h₁ hole
    rw [wp_bind]
    apply wp_load h₁ (Nat.mod_lt v (by norm_num))
    rw [hole.word, hΦ v le_rfl (by omega), if_neg (by decide), wp_bind, hentry]
    apply wp_store h₁ (Nat.mod_lt v (by norm_num))
    intro s₂ h₂
    rw [← add_assoc] at h₂
    replace h₂ := h₂.mono_left (hole.put _ (entry_lt (by omega) hflags))
    cases k with
    | zero =>
      rw [Nat.add_zero, if_pos rfl, wp_pure]
      apply hok
      rwa [mapped_succ, mapped_zero]
    | succ k =>
      have hne : v * PGSIZE ≠ (v + (k + 1)) * PGSIZE := by
        intro heq
        have := Nat.eq_of_mul_eq_mul_right PGSIZE_pos heq
        omega
      have hlast : v + (k + 1) = v + 1 + k := by omega
      rw [if_neg hne, hlast, ← Nat.succ_mul, ← Nat.succ_mul]
      refine ih h₂ (by rwa [hlast] at hv) ?_ (by omega) (by omega) ?_ ?_
      · intro u hu hu'
        rw [Function.update_of_ne (by omega)]
        exact hΦ u (by omega) (by omega)
      · intro s' j hj h'
        rw [← mapped_succ] at h'
        exact hfail s' (j + 1) (by omega) h'
      · intro s' h'
        rw [← mapped_succ] at h'
        exact hok s' h'

/-- A page is mapped where nothing was, unless memory is short. -/
lemma wp_mappages {Q : Bool → State → Prop} {q perm : ℕ} (h : Owned sym s (tree 2 p Φ + R))
    (hv : v * PGSIZE < MAXVA) (hΦ : Φ v = 0) (hq : q < 2 ^ 44) (hperm : perm < 1024)
    (hfail : ∀ s', Owned sym s' (tree 2 p Φ + R) → Q false s')
    (hok : ∀ s', Owned sym s' (tree 2 p (Function.update Φ v (q * 1024 + (perm ||| PTE_V))) + R) →
      Q true s') :
    wp F (mappages (p * PGSIZE) (v * PGSIZE) PGSIZE (q * PGSIZE) perm) Q s := by
  have hlast : PGROUNDDOWN ((v * PGSIZE + PGSIZE - 1) % 2 ^ 64) = (v + 0) * PGSIZE := by
    rw [MAXVA_eq] at hv
    rw [PGROUNDDOWN]
    simp only [PGSIZE] at *
    omega
  have hfirst : PGROUNDDOWN (v * PGSIZE) = v * PGSIZE := by
    rw [PGROUNDDOWN, Nat.mul_div_cancel _ PGSIZE_pos]
  rw [mappages, if_neg (by decide), hlast, hfirst]
  refine wp_mappagesFrom h hv ?_ hq hperm (Nat.succ_pos _) ?_ ?_
  · intro u hu hu'
    obtain rfl : u = v := by omega
    exact hΦ
  · intro s' j hj h'
    obtain rfl : j = 0 := by omega
    rw [mapped_zero] at h'
    exact hfail s' h'
  · intro s' h'
    rw [mapped_succ, mapped_zero] at h'
    exact hok s' h'

/-- What `walk` finds for a page that is mapped. -/
lemma wp_walk_leaf (h : Owned sym s (tree 2 p Φ + R))
    (hv : v * PGSIZE < MAXVA) (hΦ : Φ v ≠ 0)
    (hsome : ∀ q c K, Owned sym s (pts q c + (K + R)) → Hole 2 p Φ v q c K →
      Q (some (q * PGSIZE + 8 * (v % 512))) s) :
    wp F (walk (p * PGSIZE) (v * PGSIZE) false) Q s := by
  apply wp_walk h hv
  · exact fun s' hs' _ => absurd (hs' rfl).2 hΦ
  · intro s' q c K hs' h' hole
    obtain rfl := hs' rfl
    exact hsome q c K h' hole

lemma Leaf.ne_zero {w : ℕ} (h : Leaf w) : w ≠ 0 := by
  rintro rfl
  exact h.1 rfl

variable {Q : PUnit → State → Prop}

/-- A mapping is removed. -/
lemma wp_unmapPage (h : Owned sym s (tree 2 p Φ + R)) (hv : v * PGSIZE < MAXVA) (hΦ : Leaf (Φ v))
    (hQ : ∀ s', Owned sym s' (tree 2 p (Function.update Φ v 0) + R) → Q ⟨⟩ s') :
    wp F (unmapPage sym (p * PGSIZE) (v * PGSIZE) false) Q s := by
  rw [unmapPage, wp_bind]
  apply wp_walk_leaf h hv hΦ.ne_zero
  intro q c K h₁ hole
  rw [wp_bind]
  apply wp_load h₁ (Nat.mod_lt v (by norm_num))
  rw [hole.word, if_neg hΦ.1, if_neg hΦ.flags_ne, if_neg (by decide)]
  apply wp_store h₁ (Nat.mod_lt v (by norm_num))
  intro s₂ h₂
  rw [← add_assoc] at h₂
  exact hQ s₂ (h₂.mono_left (hole.put 0 (by norm_num)))

/-- A mapping is removed, and its page given back. -/
lemma wp_unmapPage_free (h : Owned sym s (tree 2 p Φ + (own (Φ v / 1024) + R)))
    (hv : v * PGSIZE < MAXVA) (hΦ : Leaf (Φ v))
    (hQ : ∀ s', Owned sym s' (tree 2 p (Function.update Φ v 0) + R) → Q ⟨⟩ s') :
    wp F (unmapPage sym (p * PGSIZE) (v * PGSIZE) true) Q s := by
  rw [unmapPage, wp_bind]
  apply wp_walk_leaf h hv hΦ.ne_zero
  intro q c K h₁ hole
  rw [wp_bind]
  apply wp_load h₁ (Nat.mod_lt v (by norm_num))
  rw [hole.word, if_neg hΦ.1, if_neg hΦ.flags_ne, if_pos rfl, wp_bind, PTE2PA_eq]
  have hpage : Owned sym s (own (Φ v / 1024) + (pts q c + (K + R))) := h₁.perm (by abel)
  apply wp_kfree hpage
  intro s₂ h₂
  apply wp_store h₂ (Nat.mod_lt v (by norm_num))
  intro s₃ h₃
  rw [← add_assoc] at h₃
  exact hQ s₃ (h₃.mono_left (hole.put 0 (by norm_num)))

/-- The entries without those of a range. -/
def cleared (Φ : ℕ → ℕ) (a b v : ℕ) : ℕ := if a ≤ v ∧ v < b then 0 else Φ v

lemma cleared_self (Φ : ℕ → ℕ) (a : ℕ) : cleared Φ a a = Φ := by
  funext v
  rw [cleared, if_neg (by omega)]

lemma cleared_succ (Φ : ℕ → ℕ) {a b : ℕ} (hab : a ≤ b) :
    cleared Φ a (b + 1) = Function.update (cleared Φ a b) b 0 := by
  funext v
  rcases eq_or_ne v b with rfl | hne
  · rw [Function.update_self, cleared, if_pos (by omega)]
  · rw [Function.update_of_ne hne, cleared, cleared]
    apply if_congr _ rfl rfl
    omega

lemma unmapRounds_eq {k : ℕ} (h : (v + k) * PGSIZE ≤ MAXVA) : unmapRounds (v * PGSIZE) k = k := by
  rw [MAXVA_eq] at h
  have hlt : (v + k) * PGSIZE < 2 ^ 64 := by omega
  rw [unmapRounds, ← Nat.add_mul, Nat.mod_eq_of_lt hlt, ← Nat.sub_mul, Nat.add_sub_cancel_left,
    Nat.mul_div_cancel _ PGSIZE_pos]

/-- The mappings of a range are removed, and their pages given back. -/
lemma wp_uvmunmap_free {k : ℕ}
    (h : Owned sym s (tree 2 p Φ + (∑ u ∈ Finset.Ico v (v + k), own (Φ u / 1024) + R)))
    (hv : (v + k) * PGSIZE ≤ MAXVA) (hΦ : ∀ u, v ≤ u → u < v + k → Leaf (Φ u))
    (hQ : ∀ s', Owned sym s' (tree 2 p (cleared Φ v (v + k)) + R) → Q ⟨⟩ s') :
    wp F (uvmunmap sym (p * PGSIZE) (v * PGSIZE) k true) Q s := by
  rw [uvmunmap, if_neg (by rw [Nat.mul_mod_left]; exact absurd rfl), unmapRounds_eq hv]
  apply wp_forM_range fun i s => Owned sym s (tree 2 p (cleared Φ v (v + i))
    + (∑ u ∈ Finset.Ico (v + i) (v + k), own (Φ u / 1024) + R))
  · rw [Nat.add_zero, cleared_self]
    exact h
  · intro i hi s₁ h₁
    have haddr : v * PGSIZE + i * PGSIZE = (v + i) * PGSIZE := (Nat.add_mul v i PGSIZE).symm
    have hlt : (v + i) * PGSIZE < MAXVA := by
      refine Nat.lt_of_lt_of_le ?_ hv
      exact Nat.mul_lt_mul_of_pos_right (by omega) PGSIZE_pos
    have hsame : cleared Φ v (v + i) (v + i) = Φ (v + i) := by rw [cleared, if_neg (by omega)]
    rw [Finset.sum_eq_sum_Ico_succ_bot (by omega), add_assoc, ← hsame] at h₁
    rw [haddr]
    apply wp_unmapPage_free h₁ hlt
    · rw [hsame]
      exact hΦ _ (by omega) (by omega)
    · intro s₂ h₂
      rw [← Nat.add_assoc, cleared_succ Φ (by omega)]
      exact h₂
  · intro s₁ h₁
    rw [Finset.Ico_self, Finset.sum_empty, zero_add] at h₁
    exact hQ s₁ h₁

/-- The mapping of one page is removed; the page stays. -/
lemma wp_uvmunmap_one (h : Owned sym s (tree 2 p Φ + R)) (hv : v * PGSIZE < MAXVA) (hΦ : Leaf (Φ v))
    (hQ : ∀ s', Owned sym s' (tree 2 p (Function.update Φ v 0) + R) → Q ⟨⟩ s') :
    wp F (uvmunmap sym (p * PGSIZE) (v * PGSIZE) 1 false) Q s := by
  have hle : (v + 1) * PGSIZE ≤ MAXVA := by
    rw [show MAXVA = 67108864 * PGSIZE from rfl] at hv ⊢
    exact Nat.mul_le_mul_right PGSIZE (Nat.lt_of_mul_lt_mul_right hv)
  rw [uvmunmap, if_neg (by rw [Nat.mul_mod_left]; exact absurd rfl), unmapRounds_eq hle]
  show wp F (forM [0] _) Q s
  rw [List.forM_cons, wp_bind, Nat.zero_mul, Nat.add_zero]
  exact wp_unmapPage h hv hΦ hQ

end Pages

end Xv6.Vm
