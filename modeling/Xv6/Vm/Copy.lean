import Mathlib.Data.List.GetD
import Xv6.Vm.User

/-!
# Copying user memory

`walkaddr`, `copyout` and `uvmcopy`: single bytes written to user memory, and the copy of a whole
address space. Two address spaces are separate summands of one assertion about the memory, so what
is written to one of them cannot change the other.
-/

namespace Xv6.Vm

open Core Coroutine Assn
open scoped Pointwise

variable {sym : Symbols} {s : State} {R : Assn ℕ Page} {F : Panic → Prop} {p tf n va : ℕ}
  {Φ Ψ : ℕ → ℕ} {M M' : ℕ → Page}

/-! ### Looking up addresses -/

/-- The user may access the virtual page. -/
def UserPage (Φ : ℕ → ℕ) (n v : ℕ) : Prop := v < n ∧ Φ v &&& PTE_U ≠ 0

instance (Φ : ℕ → ℕ) (n v : ℕ) : Decidable (UserPage Φ n v) := inferInstanceAs (Decidable (_ ∧ _))

variable {v : ℕ}

/-- Beyond the user memory nothing is open to the user. -/
lemma UserMap.lt_of_and_U (hmap : UserMap sym tf n Φ) (hv : Φ v &&& PTE_U ≠ 0) : v < n := by
  by_contra hge
  apply hv
  rcases eq_or_ne v trampolinePage with rfl | h₁
  · rw [hmap.trampoline, and_flags _ (by decide), Nat.mul_add_mod_of_lt (by decide)]
    decide
  rcases eq_or_ne v trapframePage with rfl | h₂
  · rw [hmap.trapframe, and_flags _ (by decide), Nat.mul_add_mod_of_lt (by decide)]
    decide
  · rw [hmap.unmapped v (by omega) h₁ h₂]
    decide

lemma wp_walkaddr {Q : ℕ → State → Prop} (hmap : UserMap sym tf n Φ)
    (h : Owned sym s (tree 2 p Φ + R)) (hnone : ¬UserPage Φ n (va / PGSIZE) → Q 0 s)
    (hsome : UserPage Φ n (va / PGSIZE) → Q (Φ (va / PGSIZE) / 1024 * PGSIZE) s) :
    wp F (walkaddr (p * PGSIZE) va) Q s := by
  rw [walkaddr]
  apply wp_ite
  · intro hva
    apply hnone
    rintro ⟨hlt, -⟩
    have := hmap.le
    rw [trapframePage_eq] at this
    rw [MAXVA_eq] at hva
    rw [PGSIZE] at hlt
    omega
  intro hva
  rw [wp_bind]
  apply wp_walk_addr h (by omega)
  · intro s' hs' _
    obtain ⟨rfl, hzero⟩ := hs' rfl
    apply hnone
    rintro ⟨-, hU⟩
    rw [hzero] at hU
    exact hU (by decide)
  · intro s' q c K hs' h' hole
    obtain rfl := hs' rfl
    rw [wp_bind]
    apply wp_load h' (Nat.mod_lt _ (by norm_num))
    rw [hole.word]
    apply wp_ite
    · intro hbad
      apply hnone
      rintro ⟨hlt, hU⟩
      exact hbad.elim (hmap.user _ hlt).1 hU
    · intro hgood
      push Not at hgood
      rw [PTE2PA_eq]
      exact hsome ⟨hmap.lt_of_and_U hgood.2, hgood.2⟩

/-! ### Writing bytes -/

/-- User memory with some bytes written at a virtual address. -/
def writeMem (M : ℕ → Page) (va : ℕ) (bs : List UInt8) : ℕ → Page := fun v j =>
  if va ≤ v * PGSIZE + j.val ∧ v * PGSIZE + j.val < va + bs.length then
    bs.getD (v * PGSIZE + j.val - va) 0
  else M v j

lemma writeMem_nil (M : ℕ → Page) (va : ℕ) : writeMem M va [] = M := by
  funext v j
  rw [writeMem, if_neg (by simp)]

lemma writeMem_append (M : ℕ → Page) (va : ℕ) (bs cs : List UInt8) :
    writeMem (writeMem M va bs) (va + bs.length) cs = writeMem M va (bs ++ cs) := by
  funext v j
  simp only [writeMem, List.length_append]
  generalize v * PGSIZE + j.val = a
  rcases Nat.lt_or_ge a (va + bs.length) with hlt | hge
  · rw [if_neg (by omega)]
    apply ite_congr (by simp only [eq_iff_iff]; omega) _ fun _ => rfl
    intro ha
    rw [List.getD_append _ _ _ _ (by omega)]
  · rw [if_neg (show ¬(va ≤ a ∧ a < va + bs.length) by omega)]
    apply ite_congr (by simp only [eq_iff_iff]; omega) _ fun _ => rfl
    intro ha
    rw [List.getD_append_right _ _ _ _ (by omega)]
    congr 1
    omega

/-- Bytes within one page. -/
lemma update_patch {o : ℕ} {bs : List UInt8} (ho : o + bs.length ≤ PGSIZE) :
    Function.update M v ((M v).patch o bs) = writeMem M (v * PGSIZE + o) bs := by
  funext u j
  have hj : j.val < PGSIZE := j.isLt
  rcases eq_or_ne u v with rfl | hne
  · rw [Function.update_self, Page.patch, writeMem]
    apply ite_congr (by simp only [eq_iff_iff]; omega) _ fun _ => rfl
    intro hin
    congr 1
    omega
  · rw [Function.update_of_ne hne, writeMem, if_neg]
    rintro ⟨h₁, h₂⟩
    apply hne
    simp only [PGSIZE] at *
    omega

/-- Only the pages of `U` have changed. -/
structure State.Confined (U : Set ℕ) (s s' : State) : Prop where
  freelist : s'.freelist = s.freelist
  deny : s'.deny = s.deny
  page : ∀ q ∉ U, s'.page q = s.page q

namespace State.Confined

variable {U V W : Set ℕ} {s' s'' : State}

lemma refl (U : Set ℕ) (s : State) : Confined U s s := ⟨rfl, rfl, fun _ _ => rfl⟩

lemma trans (h : Confined U s s') (h' : Confined V s' s'') (hU : U ⊆ W) (hV : V ⊆ W) :
    Confined W s s'' where
  freelist := h'.freelist.trans h.freelist
  deny := h'.deny.trans h.deny
  page q hq := (h'.page q fun hmem => hq (hV hmem)).trans (h.page q fun hmem => hq (hU hmem))

lemma setPage {q o : ℕ} (ho : o < PGSIZE) (f : Page → Page) :
    Confined {q} s (s.setPage (q * PGSIZE + o) f) where
  freelist := rfl
  deny := rfl
  page q' hq' := by
    rw [State.setPage, addr_div ho]
    exact Function.update_of_ne hq' ..

end State.Confined

/-- A page of user memory is written. -/
lemma wp_setPage_user {Q : PUnit → State → Prop} {o : ℕ} {f : Page → Page} (hv : v < n)
    (ho : o < PGSIZE) (h : Owned sym s (tree 2 p Φ + (umem Φ M n + R)))
    (hQ : ∀ s', State.Confined {Φ v / 1024} s s' →
      Owned sym s' (tree 2 p Φ + (umem Φ (Function.update M v (f (M v))) n + R)) → Q ⟨⟩ s') :
    wp F (setPage (Φ v / 1024 * PGSIZE + o) f) Q s := by
  rw [umem_erase hv] at h
  have h' := h.perm (by abel : _ = pts (Φ v / 1024) (M v) + (tree 2 p Φ
    + (∑ u ∈ (Finset.range n).erase v, pts (Φ u / 1024) (M u) + R)))
  refine hQ _ (.setPage ho f) ?_
  rw [umem_update hv]
  exact (h'.setPage ho f).perm (by abel)

/-- User pages are pages of memory. -/
lemma Owned.user_mem_ram (h : Owned sym s (tree 2 p Φ + (umem Φ M n + R))) (hv : v < n) :
    Φ v / 1024 ∈ ram sym := by
  rw [umem_erase hv] at h
  have h' := h.perm (by abel : _ = pts (Φ v / 1024) (M v) + (tree 2 p Φ
    + (∑ u ∈ (Finset.range n).erase v, pts (Φ u / 1024) (M u) + R)))
  exact (h'.mono_left (pts_subset_own _ _)).mem

lemma PGROUNDDOWN_div (va : ℕ) : PGROUNDDOWN va / PGSIZE = va / PGSIZE := by
  rw [PGROUNDDOWN, Nat.mul_div_cancel _ PGSIZE_pos]

lemma sub_PGROUNDDOWN (va : ℕ) : va - PGROUNDDOWN va = va % PGSIZE := by
  have := Nat.div_add_mod va PGSIZE
  rw [PGROUNDDOWN, Nat.mul_comm]
  omega

/-- The physical pages of the `k` bytes at `va`. -/
def touched (Φ : ℕ → ℕ) (va k : ℕ) : Set ℕ := {q | ∃ j < k, Φ ((va + j) / PGSIZE) / 1024 = q}

lemma touched_add (k k' : ℕ) : touched Φ (va + k) k' ⊆ touched Φ va (k + k') := by
  rintro q ⟨j, hj, hq⟩
  refine ⟨k + j, by omega, ?_⟩
  rwa [← Nat.add_assoc]

variable {Q : Bool → State → Prop}

/-- The rounds of `copyout`: the bytes are written up to the first one that the user may not
access. -/
lemma wp_copyoutFrom {fuel : ℕ} {src : List UInt8}
    (hmap : UserMap sym tf n Φ) (hfuel : src.length ≤ fuel)
    (h : Owned sym s (tree 2 p Φ + (umem Φ M n + R)))
    (hfail : ∀ s' k, k < src.length → (∀ j < k, UserPage Φ n ((va + j) / PGSIZE)) →
      ¬UserPage Φ n ((va + k) / PGSIZE) → State.Confined (touched Φ va k) s s' →
      Owned sym s' (tree 2 p Φ + (umem Φ (writeMem M va (src.take k)) n + R)) → Q false s')
    (hok : ∀ s', (∀ j < src.length, UserPage Φ n ((va + j) / PGSIZE)) →
      State.Confined (touched Φ va src.length) s s' →
      Owned sym s' (tree 2 p Φ + (umem Φ (writeMem M va src) n + R)) → Q true s') :
    wp F (copyoutFrom (p * PGSIZE) fuel va src) Q s := by
  have hdone : src = [] → Q true s := by
    rintro rfl
    refine hok s (fun j hj => absurd hj (Nat.not_lt_zero j)) (.refl _ _) ?_
    rwa [writeMem_nil]
  induction fuel generalizing s va src M with
  | zero => exact hdone (List.eq_nil_of_length_eq_zero (by omega))
  | succ fuel ih =>
    rw [copyoutFrom]
    by_cases hsrc : src = []
    · rw [if_pos hsrc]
      exact hdone hsrc
    have hlen : 0 < src.length := List.length_pos_of_ne_nil hsrc
    have hlt : va % PGSIZE < PGSIZE := Nat.mod_lt va PGSIZE_pos
    rw [if_neg hsrc]
    dsimp only
    rw [wp_bind]
    apply wp_walkaddr hmap h
    · intro hno
      rw [PGROUNDDOWN_div] at hno
      rw [if_pos rfl]
      refine hfail s 0 hlen (fun j hj => absurd hj (Nat.not_lt_zero j)) hno (.refl _ _) ?_
      rwa [List.take_zero, writeMem_nil]
    intro hyes
    rw [PGROUNDDOWN_div] at hyes ⊢
    have hne : Φ (va / PGSIZE) / 1024 * PGSIZE ≠ 0 :=
      Nat.mul_ne_zero (pos_of_mem_ram (h.user_mem_ram hyes.1)).ne' (by decide)
    have hva : va / PGSIZE * PGSIZE + va % PGSIZE = va := Nat.div_add_mod' va PGSIZE
    rw [if_neg hne, sub_PGROUNDDOWN, wp_bind, memmove, addr_mod hlt]
    apply wp_setPage_user hyes.1 hlt h
    intro s₁ hs₁ h₁
    rw [update_patch (by rw [List.length_take]; omega), hva] at h₁
    have hpage : ∀ j, va % PGSIZE + j < PGSIZE → UserPage Φ n ((va + j) / PGSIZE) := by
      intro j hj
      have heq : (va + j) / PGSIZE = va / PGSIZE := by
        simp only [PGSIZE] at *
        omega
      rwa [heq]
    have htouched : ∀ k, 0 < k → {Φ (va / PGSIZE) / 1024} ⊆ touched Φ va k :=
      fun k hk => Set.singleton_subset_iff.mpr ⟨0, hk, rfl⟩
    rw [PGROUNDDOWN]
    rcases Nat.lt_or_ge (PGSIZE - va % PGSIZE) src.length with hmore | hlast
    · -- the page is full
      have hk : min src.length (PGSIZE - va % PGSIZE) = PGSIZE - va % PGSIZE := by omega
      rw [hk] at h₁ ⊢
      have hnext : va / PGSIZE * PGSIZE + PGSIZE = va + (PGSIZE - va % PGSIZE) := by omega
      have hsize : (src.take (PGSIZE - va % PGSIZE)).length = PGSIZE - va % PGSIZE := by
        rw [List.length_take]
        omega
      replace hpage : ∀ j < PGSIZE - va % PGSIZE, UserPage Φ n ((va + j) / PGSIZE) :=
        fun j hj => hpage j (by omega)
      have hpos : 0 < PGSIZE - va % PGSIZE := by omega
      rw [hnext]
      generalize PGSIZE - va % PGSIZE = k at *
      -- what the rest does, added to this page
      have hpages : ∀ m, (∀ j < m, UserPage Φ n ((va + k + j) / PGSIZE)) →
          ∀ j < k + m, UserPage Φ n ((va + j) / PGSIZE) := by
        intro m hm j hj
        rcases Nat.lt_or_ge j k with hjk | hkj
        · exact hpage j hjk
        · obtain ⟨i, rfl⟩ := Nat.exists_eq_add_of_le hkj
          rw [← Nat.add_assoc]
          exact hm i (by omega)
      have hconfined : ∀ m s₂, State.Confined (touched Φ (va + k) m) s₁ s₂ →
          State.Confined (touched Φ va (k + m)) s s₂ :=
        fun m s₂ hs₂ => hs₁.trans hs₂ (htouched _ (by omega)) (touched_add k m)
      have hdrop : (src.drop k).length = src.length - k := List.length_drop
      have hall : k + (src.length - k) = src.length := by omega
      have hok' : ∀ s₂, (∀ j < (src.drop k).length, UserPage Φ n ((va + k + j) / PGSIZE)) →
          State.Confined (touched Φ (va + k) (src.drop k).length) s₁ s₂ →
          Owned sym s₂ (tree 2 p Φ + (umem Φ (writeMem (writeMem M va (src.take k)) (va + k)
            (src.drop k)) n + R)) → Q true s₂ := by
        intro s₂ hm hs₂ h₂
        have happ := writeMem_append M va (src.take k) (src.drop k)
        rw [hsize, List.take_append_drop] at happ
        rw [hdrop] at hm hs₂
        rw [happ] at h₂
        have hs := hconfined _ s₂ hs₂
        have hp := hpages _ hm
        rw [hall] at hs hp
        exact hok s₂ hp hs h₂
      refine ih (by omega) h₁ ?_ hok' ?_
      · intro s₂ j hj hm hno hs₂ h₂
        refine hfail s₂ (k + j) (by omega) (hpages j hm) ?_ (hconfined j s₂ hs₂) ?_
        · rwa [← Nat.add_assoc]
        · have happ := writeMem_append M va (src.take k) ((src.drop k).take j)
          rw [hsize] at happ
          rwa [List.take_add, ← happ]
      · intro hnil
        rw [hnil, List.length_nil] at hdrop
        omega
    · -- all bytes are written
      have hk : min src.length (PGSIZE - va % PGSIZE) = src.length := by omega
      rw [hk, List.take_length] at h₁
      rw [hk, List.drop_length]
      have hend : Q true s₁ := by
        refine hok s₁ (fun j hj => hpage j (by omega)) ?_ h₁
        exact hs₁.trans (.refl ∅ s₁) (htouched _ hlen) (Set.empty_subset _)
      refine ih (by simp) h₁ ?_ ?_ (fun _ => hend)
      · intro s₂ j hj
        exact absurd hj (Nat.not_lt_zero j)
      · intro s₂ _ hs₂ h₂
        rw [writeMem_nil] at h₂
        refine hok s₂ (fun j hj => hpage j (by omega)) ?_ h₂
        refine hs₁.trans hs₂ (htouched _ hlen) ?_
        rintro q ⟨j, hj, -⟩
        exact absurd hj (Nat.not_lt_zero j)

/-- `copyout` writes its bytes, or fails because the user may not access one of them. -/
lemma wp_copyout {src : List UInt8} (hmap : UserMap sym tf n Φ)
    (h : Owned sym s (tree 2 p Φ + (umem Φ M n + R)))
    (hfail : ∀ s' k, (∃ a, va ≤ a ∧ a < va + src.length ∧ ¬UserPage Φ n (a / PGSIZE)) →
      Owned sym s' (tree 2 p Φ + (umem Φ (writeMem M va (src.take k)) n + R)) → Q false s')
    (hok : ∀ s', (∀ a, va ≤ a → a < va + src.length → UserPage Φ n (a / PGSIZE)) →
      Owned sym s' (tree 2 p Φ + (umem Φ (writeMem M va src) n + R)) → Q true s') :
    wp F (copyout (p * PGSIZE) va src) Q s := by
  apply wp_copyoutFrom hmap le_rfl h
  · exact fun s' k hk _ hno _ h' => hfail s' k ⟨va + k, by omega, by omega, hno⟩ h'
  · intro s' hall _ h'
    refine hok s' ?_ h'
    intro a ha ha'
    obtain ⟨j, rfl⟩ := Nat.exists_eq_add_of_le ha
    exact hall j (by omega)

/-! ### Guard pages -/

/-- The entry of a guard page: like that of a user page, but not open to the user. -/
def guarded (Φ : ℕ → ℕ) (v : ℕ) : ℕ → ℕ := Function.update Φ v (Φ v - PTE_U)

lemma guarded_self (Φ : ℕ → ℕ) (v : ℕ) : guarded Φ v v = Φ v - PTE_U := Function.update_self ..

lemma guarded_of_ne {u : ℕ} (h : u ≠ v) : guarded Φ v u = Φ u := Function.update_of_ne h ..

lemma guarded_flags (hv : Φ v % 1024 = userFlags) :
    guarded Φ v v % 1024 = PTE_W ||| PTE_X ||| PTE_R ||| PTE_V := by
  have h₁ : userFlags = 31 := by decide
  have h₂ : PTE_W ||| PTE_X ||| PTE_R ||| PTE_V = 15 := by decide
  have h₃ : PTE_U = 16 := rfl
  rw [guarded_self]
  omega

lemma guarded_div (hv : Φ v % 1024 = userFlags) (u : ℕ) : guarded Φ v u / 1024 = Φ u / 1024 := by
  rcases eq_or_ne u v with rfl | hne
  · have h₁ : userFlags = 31 := by decide
    have h₂ : PTE_U = 16 := rfl
    rw [guarded_self]
    omega
  · rw [guarded_of_ne hne]

lemma not_userPage_guarded (hv : Φ v % 1024 = userFlags) : ¬UserPage (guarded Φ v) n v := by
  rintro ⟨-, hU⟩
  rw [and_flags _ (by decide), guarded_flags hv] at hU
  exact hU (by decide)

lemma UserMap.guarded (hmap : UserMap sym tf n Φ) (hvn : v < n) (hv : Φ v % 1024 = userFlags) :
    UserMap sym tf n (guarded Φ v) := by
  have hle := hmap.le
  rw [trapframePage_eq] at hle
  refine ⟨hmap.le, ?_, ?_, ?_, ?_⟩
  · intro u hu
    rcases eq_or_ne u v with rfl | hne
    · constructor
      · rw [and_flags _ (by decide), guarded_flags hv]
        decide
      · rw [and_flags _ (by decide), guarded_flags hv]
        decide
    · rw [guarded_of_ne hne]
      exact hmap.user u hu
  · rw [guarded_of_ne (by rw [trampolinePage_eq]; omega)]
    exact hmap.trampoline
  · rw [guarded_of_ne (by rw [trapframePage_eq]; omega)]
    exact hmap.trapframe
  · intro u hu h₁ h₂
    rw [guarded_of_ne (by omega)]
    exact hmap.unmapped u hu h₁ h₂

lemma umem_guarded (hv : Φ v % 1024 = userFlags) : umem (guarded Φ v) M n = umem Φ M n := by
  apply Finset.sum_congr rfl
  intro u _
  rw [guarded_div hv]

/-- `uvmclear` makes a guard page of a user page. -/
lemma wp_uvmclear {Q : PUnit → State → Prop} (hmap : UserMap sym tf n Φ) (hvn : v < n)
    (hv : Φ v % 1024 = userFlags) (h : Owned sym s (tree 2 p Φ + (umem Φ M n + R)))
    (hQ : ∀ s', Owned sym s' (tree 2 p (guarded Φ v) + (umem (guarded Φ v) M n + R)) → Q ⟨⟩ s') :
    wp F (uvmclear (p * PGSIZE) (v * PGSIZE)) Q s := by
  have hle := hmap.le
  rw [trapframePage_eq] at hle
  have hram := lt_of_mem_ram (h.user_mem_ram hvn)
  have hva : v * PGSIZE < MAXVA := by
    rw [MAXVA_eq, PGSIZE]
    omega
  have hU : Φ v &&& PTE_U = PTE_U := by
    rw [and_flags _ (by decide), hv]
    decide
  rw [uvmclear, wp_bind]
  apply wp_walk h hva
  · intro s₁ hs₁ _
    have hzero := (hs₁ rfl).2
    rw [hzero] at hv
    exact absurd hv (by decide)
  · intro s₁ q c K hs₁ h₁ hole
    rw [wp_bind]
    apply wp_load h₁ (Nat.mod_lt _ (by norm_num))
    rw [hole.word, hU]
    apply wp_store h₁ (Nat.mod_lt _ (by norm_num))
    intro s₂ h₂
    apply hQ
    rw [umem_guarded hv]
    rw [← add_assoc] at h₂
    exact h₂.mono_left (hole.put _ (by omega))

/-! ### Copying an address space -/

/-- The first `n` entries have the flags of the parent's, the others are as they were. -/
structure Copied (Φ Ψ Ψ' : ℕ → ℕ) (n : ℕ) : Prop where
  out : ∀ v, n ≤ v → Ψ' v = Ψ v
  flags : ∀ v < n, Ψ' v % 1024 = Φ v % 1024

lemma leaf_congr {w w' : ℕ} (h : w' % 1024 = w % 1024) (hw : Leaf w) : Leaf w' := by
  obtain ⟨h₁, h₂⟩ := hw
  rw [and_flags _ (by decide)] at h₁ h₂
  constructor
  · rwa [and_flags _ (by decide), h]
  · rwa [and_flags _ (by decide), h]

/-- The flags of a valid entry contain `PTE_V`. -/
lemma Leaf.flags_or_V {w : ℕ} (h : Leaf w) : PTE_FLAGS w ||| PTE_V = w % 1024 := by
  have hall : ∀ f < 1024, f &&& PTE_V ≠ 0 → f ||| PTE_V = f := by decide +kernel
  apply hall _ (Nat.mod_lt w (by norm_num))
  have := h.1
  rwa [and_flags _ (by decide)] at this

namespace Copied

variable {Ψ' : ℕ → ℕ} {tf' : ℕ}

lemma refl (Φ Ψ : ℕ → ℕ) : Copied Φ Ψ Ψ 0 := ⟨fun _ _ => rfl, by simp⟩

lemma succ {q : ℕ} (h : Copied Φ Ψ Ψ' n) :
    Copied Φ Ψ (Function.update Ψ' n (q * 1024 + Φ n % 1024)) (n + 1) := by
  refine ⟨?_, ?_⟩
  · intro v hv
    rw [Function.update_of_ne (by omega)]
    exact h.out v (by omega)
  · intro v hv
    rcases eq_or_ne v n with rfl | hne
    · rw [Function.update_self]
      omega
    · rw [Function.update_of_ne hne]
      exact h.flags v (by omega)

lemma leaf (h : Copied Φ Ψ Ψ' n) (hv : v < n) (hΦ : Leaf (Φ v)) : Leaf (Ψ' v) :=
  leaf_congr (h.flags v hv) hΦ

lemma userMap (h : Copied Φ Ψ Ψ' n) (hΦ : UserMap sym tf n Φ) (hΨ : UserMap sym tf' 0 Ψ) :
    UserMap sym tf' n Ψ' where
  le := hΦ.le
  user v hv := h.leaf hv (hΦ.user v hv)
  trampoline := by
    have := hΦ.le
    rw [h.out _ (by rw [trapframePage_eq] at this; rw [trampolinePage_eq]; omega)]
    exact hΨ.trampoline
  trapframe := by
    rw [h.out _ hΦ.le]
    exact hΨ.trapframe
  unmapped v hv h₁ h₂ := by
    rw [h.out v hv]
    exact hΨ.unmapped v (Nat.zero_le v) h₁ h₂

/-- What was copied is taken away again. -/
lemma cleared (h : Copied Φ Ψ Ψ' n) (hn : n ≤ trapframePage) (hΨ : UserMap sym tf' 0 Ψ) :
    cleared Ψ' 0 n = Ψ := by
  rw [trapframePage_eq] at hn
  funext v
  rw [Vm.cleared]
  split_ifs with hv
  · refine (hΨ.unmapped v (Nat.zero_le v) ?_ ?_).symm
    · rw [trampolinePage_eq]
      omega
    · rw [trapframePage_eq]
      omega
  · exact h.out v (by omega)

end Copied

section

variable {c tf' sz : ℕ} {Ψ' : ℕ → ℕ}

/-- The way out of `uvmcopy` when memory is short. -/
lemma wp_rollback {Q : PUnit → State → Prop} (hΦ : UserMap sym tf n Φ) (hΨ : UserMap sym tf' 0 Ψ)
    (hc : Copied Φ Ψ Ψ' v) (hv : v ≤ n) (hn : n ≤ 32768)
    (h : Owned sym s (tree 2 c Ψ' + (umem Ψ' M v + R)))
    (hQ : ∀ s', Owned sym s' (tree 2 c Ψ + R) → Q ⟨⟩ s') :
    wp F (uvmunmap sym (c * PGSIZE) 0 (v * PGSIZE / PGSIZE) true) Q s := by
  have hown := h.own_Ico (Nat.zero_le v)
  rw [umem_zero, zero_add] at hown
  rw [Nat.mul_div_cancel _ PGSIZE_pos, ← Nat.zero_mul PGSIZE]
  refine wp_uvmunmap_free (k := v) (by rwa [Nat.zero_add]) ?_ ?_ ?_
  · rw [MAXVA_eq]
    simp only [PGSIZE]
    omega
  · exact fun u _ hu => hc.leaf (by omega) (hΦ.user u (by omega))
  · intro s' h'
    rw [Nat.zero_add, hc.cleared (by rw [trapframePage_eq]; omega) hΨ] at h'
    exact hQ s' h'

/-- The rounds of `uvmcopy` from the page `v` on. -/
lemma wp_uvmcopyFrom {fuel : ℕ} (hΦ : UserMap sym tf n Φ)
    (hΨ : UserMap sym tf' 0 Ψ) (hn : npages sz = n) (hc : Copied Φ Ψ Ψ' v) (hv : v ≤ n)
    (hfuel : n ≤ v + fuel)
    (h : Owned sym s (tree 2 p Φ + (umem Φ M n + (tree 2 c Ψ' + (umem Ψ' M v + R)))))
    (hfail : ∀ s', Owned sym s' (tree 2 p Φ + (umem Φ M n + (tree 2 c Ψ + R))) → Q false s')
    (hok : ∀ s' Ψ', Copied Φ Ψ Ψ' n →
      Owned sym s' (tree 2 p Φ + (umem Φ M n + (tree 2 c Ψ' + (umem Ψ' M n + R)))) → Q true s') :
    wp F (uvmcopyFrom sym (p * PGSIZE) (c * PGSIZE) sz fuel (v * PGSIZE)) Q s := by
  have hmax : n ≤ 32768 := (h.perm (add_left_comm _ _ _)).npages_le
  induction fuel generalizing s v Ψ' with
  | zero =>
    obtain rfl : v = n := by omega
    exact hok s Ψ' hc h
  | succ fuel ih =>
    rw [uvmcopyFrom]
    apply wp_ite
    swap
    · intro hlt
      obtain rfl : v = n := by
        have : v < npages sz ↔ v * PGSIZE < sz := lt_npages_iff
        omega
      exact hok s Ψ' hc h
    intro hlt
    have hvn : v < n := hn ▸ lt_npages_iff.mpr hlt
    have hva : v * PGSIZE < MAXVA := by
      rw [MAXVA_eq]
      simp only [PGSIZE]
      omega
    have hleaf := hΦ.user v hvn
    have hzero : Ψ' v = 0 := by
      rw [hc.out v le_rfl]
      exact hΨ.unmapped v (Nat.zero_le v) (by rw [trampolinePage_eq]; omega)
        (by rw [trapframePage_eq]; omega)
    -- the rollback, with the parent in the frame
    have hback : ∀ s₁,
        Owned sym s₁ (tree 2 p Φ + (umem Φ M n + (tree 2 c Ψ' + (umem Ψ' M v + R)))) →
        wp F (uvmunmap sym (c * PGSIZE) 0 (v * PGSIZE / PGSIZE) true) (fun _ => Q false) s₁ := by
      intro s₁ h₁
      refine wp_rollback hΦ hΨ hc hv hmax (R := tree 2 p Φ + (umem Φ M n + R))
        (h₁.perm (by abel)) fun s₂ h₂ => hfail s₂ (h₂.perm (by abel))
    rw [wp_bind]
    apply wp_walk_leaf h hva hleaf.ne_zero
    intro q e K h₁ hole
    rw [wp_bind]
    apply wp_load h₁ (Nat.mod_lt v (by norm_num))
    rw [hole.word, if_neg hleaf.1, wp_bind]
    apply wp_kalloc h
    · intro s₁ h₁
      rw [if_pos rfl, wp_bind]
      exact hback s₁ h₁
    intro q s₁ hq h₁
    have hne : q * PGSIZE ≠ 0 := Nat.mul_ne_zero (pos_of_mem_ram hq).ne' (by decide)
    rw [if_neg hne]
    simp only [wp_bind, wp_get]
    -- the contents of the parent's page go to the new one
    have hread : s₁.page (PTE2PA (Φ v) / PGSIZE) = M v := by
      rw [umem_erase hvn] at h₁
      have h₁' := h₁.perm (by abel : _ = pts (Φ v / 1024) (M v) + (own q + (tree 2 p Φ
        + (∑ u ∈ (Finset.range n).erase v, pts (Φ u / 1024) (M u)
          + (tree 2 c Ψ' + (umem Ψ' M v + R))))))
      rw [PTE2PA_eq, Nat.mul_div_cancel _ PGSIZE_pos]
      exact h₁'.read
    rw [hread, ← Nat.add_zero (q * PGSIZE)]
    obtain ⟨e', h₁'⟩ := h₁.exists_left
    apply wp_setPage h₁' PGSIZE_pos
    intro s₂ h₂
    have h₂' := h₂.perm (by abel : _ = tree 2 c Ψ' + (pts q (M v) + (tree 2 p Φ
      + (umem Φ M n + (umem Ψ' M v + R)))))
    have hperm : PTE_FLAGS (Φ v) < 1024 := Nat.mod_lt _ (by norm_num)
    rw [Nat.add_zero, wp_bind]
    apply wp_mappages h₂' hva hzero (lt_of_mem_ram' hq) hperm
    · intro s₃ h₃
      rw [if_neg (by decide), wp_bind]
      have hpage := (h₃.perm (add_left_comm _ _ _)).mono_left (pts_subset_own q _)
      apply wp_kfree hpage
      intro s₄ h₄
      rw [wp_bind]
      exact hback s₄ (h₄.perm (by abel))
    · intro s₃ h₃
      rw [hleaf.flags_or_V] at h₃
      rw [if_pos rfl, ← Nat.succ_mul]
      have hdiv : (q * 1024 + Φ v % 1024) / 1024 = q := by omega
      have hsame : umem (Function.update Ψ' v (q * 1024 + Φ v % 1024)) M v = umem Ψ' M v :=
        umem_congr (fun u hu => Function.update_of_ne (by omega) _ _) fun _ _ => rfl
      refine ih (hc.succ (q := q)) hvn (by omega) ?_
      rw [Nat.succ_eq_add_one, umem_succ, Function.update_self, hdiv, hsame]
      exact h₃.perm (by abel)

/-- `uvmcopy` copies all pages with their flags and contents, or leaves both page tables as they
were. -/
lemma wp_uvmcopy (hΦ : UserMap sym tf n Φ) (hΨ : UserMap sym tf' 0 Ψ)
    (hn : npages sz = n) (h : Owned sym s (tree 2 p Φ + (umem Φ M n + (tree 2 c Ψ + R))))
    (hfail : ∀ s', Owned sym s' (tree 2 p Φ + (umem Φ M n + (tree 2 c Ψ + R))) → Q false s')
    (hok : ∀ s' Ψ', Copied Φ Ψ Ψ' n →
      Owned sym s' (tree 2 p Φ + (umem Φ M n + (tree 2 c Ψ' + (umem Ψ' M n + R)))) → Q true s') :
    wp F (uvmcopy sym (p * PGSIZE) (c * PGSIZE) sz) Q s := by
  rw [uvmcopy, ← Nat.zero_mul PGSIZE]
  refine wp_uvmcopyFrom hΦ hΨ hn (.refl Φ Ψ) (Nat.zero_le n) ?_ ?_ hfail hok
  · rw [← hn, npages]
    simp only [PGSIZE]
    omega
  · rwa [umem_zero, zero_add]

end

end Xv6.Vm
