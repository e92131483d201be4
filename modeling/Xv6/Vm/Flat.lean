import Xv6.Vm.Space

/-!
# The page table as a flat map

An abstract page table is a map from virtual pages to physical pages with flags. `Built` follows the
kernel from `kinit` on: it makes a page table, maps and unmaps ranges of it, and takes, writes and
gives back other pages in between. At every point `walk` finds in the three levels of tables what
the flat map says.
-/

namespace Xv6.Vm

open Core Coroutine Assn
open scoped Pointwise

/-! ### Flat page tables -/

/-- For each virtual page the physical page and the flags, `PTE_V` among them. -/
abbrev Flat := ℕ → Option (ℕ × ℕ)

namespace Flat

/-- The virtual page meets the range `[va, va + size)`. -/
def Meets (va size v : ℕ) : Prop := v * PGSIZE < va + size ∧ va < (v + 1) * PGSIZE

instance (va size v : ℕ) : Decidable (Meets va size v) := inferInstanceAs (Decidable (_ ∧ _))

/-- All pages that meet a range are mapped, to consecutive physical pages. -/
def map (m : Flat) (va size pa perm : ℕ) : Flat := fun v =>
  if Meets va size v then some (pa / PGSIZE + (v - va / PGSIZE), perm ||| PTE_V) else m v

/-- The pages of `[va, va + npages*PGSIZE)` are removed; the bound is computed as a `uint64`. -/
def unmap (m : Flat) (va npages : ℕ) : Flat := fun v =>
  if va ≤ v * PGSIZE ∧ v * PGSIZE < (va + npages * PGSIZE) % 2 ^ 64 then none else m v

/-- The entry of a virtual page. -/
def pte (m : Flat) (v : ℕ) : ℕ :=
  match m v with
  | none => 0
  | some (q, f) => q * 1024 + f

/-- What `mappages` asks for: a range of virtual addresses in which nothing is mapped, an aligned
range of physical addresses, and flags. -/
structure Mappable (m : Flat) (va size pa perm : ℕ) : Prop where
  size_pos : 0 < size
  le_MAXVA : va + size ≤ MAXVA
  unmapped : ∀ v, Meets va size v → m v = none
  dvd : PGSIZE ∣ pa
  pa_le : pa + ((va + size - 1) / PGSIZE - va / PGSIZE + 1) * PGSIZE ≤ 2 ^ 56
  perm_lt : perm < 1024

/-- The physical pages behind the virtual pages that `uvmunmap` removes, in its order. -/
def removed (m : Flat) (va npages : ℕ) : List ℕ :=
  (List.range (unmapRounds va npages)).map fun i => m.pte (va / PGSIZE + i) / 1024

/-- What the entries of a table are like. -/
def Wf (m : Flat) : Prop := ∀ v q f, m v = some (q, f) → f < 1024 ∧ f &&& PTE_V ≠ 0

end Flat

/-! ### Runs -/

/-- The states of the memory with at most one page table: its root page and the flat map that it
should be. The last argument has the pages that `kalloc` has handed out to others, which they may
map, write and give back. -/
inductive Built (sym : Symbols) : State → Option (ℕ × Flat) → Finset ℕ → Prop
  | kinit {s s' : State} : s.freelist = 0 → (kinit sym).run s = .ok (⟨⟩, s') →
      Built sym s' none ∅
  | kalloc {s s' : State} {t : Option (ℕ × Flat)} {X : Finset ℕ} {r : ℕ} : Built sym s t X →
      kalloc.run s = .ok (r, s') → Built sym s' t (if r = 0 then X else insert (r / PGSIZE) X)
  | kfree {s s' : State} {t : Option (ℕ × Flat)} {X : Finset ℕ} {q : ℕ} : Built sym s t X →
      q ∈ X → (kfree sym (q * PGSIZE)).run s = .ok (⟨⟩, s') → Built sym s' t (X.erase q)
  | write {s : State} {t : Option (ℕ × Flat)} {X : Finset ℕ} {q : ℕ} (c : Page) :
      Built sym s t X → q ∈ X → Built sym (s.setPage (q * PGSIZE) fun _ => c) t X
  | uvmcreate {s s' : State} {X : Finset ℕ} {r : ℕ} : Built sym s none X →
      uvmcreate.run s = .ok (r, s') → r ≠ 0 →
      Built sym s' (some (r / PGSIZE, fun _ => none)) X
  | mappages {s s' : State} {p : ℕ} {m : Flat} {X : Finset ℕ} {va size pa perm : ℕ} :
      Built sym s (some (p, m)) X → m.Mappable va size pa perm →
      (mappages (p * PGSIZE) va size pa perm).run s = .ok (true, s') →
      Built sym s' (some (p, m.map va size pa perm)) X
  | uvmunmap {s s' : State} {p : ℕ} {m : Flat} {X : Finset ℕ} {va npages : ℕ} :
      Built sym s (some (p, m)) X →
      (uvmunmap sym (p * PGSIZE) va npages false).run s = .ok (⟨⟩, s') →
      Built sym s' (some (p, m.unmap va npages)) X
  /-- The pages that are freed have been handed out, and none of them is freed twice. -/
  | uvmunmapFree {s s' : State} {p : ℕ} {m : Flat} {X : Finset ℕ} {va npages : ℕ} :
      Built sym s (some (p, m)) X → (m.removed va npages).Nodup →
      (∀ q ∈ m.removed va npages, q ∈ X) →
      (uvmunmap sym (p * PGSIZE) va npages true).run s = .ok (⟨⟩, s') →
      Built sym s' (some (p, m.unmap va npages)) (X \ (m.removed va npages).toFinset)

variable {sym : Symbols} {s : State} {R : Assn ℕ Page} {F : Panic → Prop} {p : ℕ} {Φ : ℕ → ℕ}
  {m : Flat} {X : Finset ℕ}

/-! ### The allocator -/

/-- The pages that others hold, with any contents. -/
def held (X : Finset ℕ) : Assn ℕ Page := ∑ q ∈ X, own q

lemma held_insert {q : ℕ} (hq : q ∉ X) : held (insert q X) = own q + held X :=
  Finset.sum_insert hq

lemma held_erase {q : ℕ} (hq : q ∈ X) : held X = own q + held (X.erase q) :=
  (Finset.add_sum_erase X _ hq).symm

/-- A page that is handed out is not one of those that others hold. -/
lemma notMem_of_owned {q : ℕ} (h : Owned sym s (own q + (R + held X))) : q ∉ X := by
  intro hq
  rw [held_erase hq, add_left_comm R] at h
  obtain ⟨l, hl⟩ := h
  have hl' : Holds (ram sym) s.page
      (own q + (own q + (chain s.freelist l + (R + held (X.erase q))))) := hl.perm (by abel)
  exact hl'.ne rfl

/-- At boot all pages become free. -/
lemma wp_kinit {Q : PUnit → State → Prop} (hs : s.freelist = 0)
    (hQ : ∀ s', Owned sym s' (held ∅) → Q ⟨⟩ s') : wp F (kinit sym) Q s := by
  have hround : PGROUNDUP sym.kend = PGROUNDUP sym.kend / PGSIZE * PGSIZE :=
    (Nat.div_mul_cancel (Dvd.intro_left _ rfl)).symm
  have hcount : (PHYSTOP - PGROUNDUP sym.kend) / PGSIZE
      = PHYSTOP / PGSIZE - PGROUNDUP sym.kend / PGSIZE := by
    rw [hround, show PHYSTOP = PHYSTOP / PGSIZE * PGSIZE from rfl, ← Nat.sub_mul,
      Nat.mul_div_cancel _ PGSIZE_pos, Nat.mul_div_cancel _ PGSIZE_pos,
      Nat.mul_div_cancel _ PGSIZE_pos]
  have hram : ram sym = Finset.Ico (PGROUNDUP sym.kend / PGSIZE) (PHYSTOP / PGSIZE) := rfl
  rw [kinit, freerange, hcount]
  generalize PGROUNDUP sym.kend / PGSIZE = a at hround hram ⊢
  generalize PHYSTOP / PGSIZE = b at hram ⊢
  apply wp_forM_range fun i s => Owned sym s (∑ q ∈ Finset.Ico (a + i) b, own q + held ∅)
  · refine ⟨[], ?_⟩
    have hall := holds_sum_own (ram sym) s.page
    rw [hram] at hall ⊢
    rw [held, Finset.sum_empty, add_zero, Nat.add_zero]
    exact ⟨0, ⟨hs, rfl⟩, _, hall, zero_add _⟩
  · intro i hi s₁ h₁
    rw [Finset.sum_eq_sum_Ico_succ_bot (by omega), add_assoc] at h₁
    rw [hround, ← Nat.add_mul]
    exact wp_kfree h₁ fun s₂ h₂ => h₂
  · intro s₁ h₁
    rw [Finset.Ico_eq_empty_of_le (by omega), Finset.sum_empty, zero_add] at h₁
    exact hQ s₁ h₁

/-! ### Unmapping, where it does not panic -/

/-- The page behind an entry, when it is to be freed. -/
def freed (doFree : Bool) (w : ℕ) : Assn ℕ Page := if doFree then own (w / 1024) else 0

/-- A round of `uvmunmap` that returns has cleared the entry. -/
lemma wp_unmapPage_of_returns {v : ℕ} {doFree : Bool}
    (h : Owned sym s (tree 2 p Φ + (freed doFree (Φ v) + R))) :
    wp (fun _ => True) (unmapPage sym (p * PGSIZE) (v * PGSIZE) doFree)
      (fun _ s' => Owned sym s' (tree 2 p (Function.update Φ v 0) + R)) s := by
  rw [unmapPage, wp_bind]
  by_cases hv : MAXVA ≤ v * PGSIZE
  · rw [walk, if_pos hv]
    trivial
  apply wp_walk h (by omega)
  · exact fun _ _ _ => trivial
  intro s₁ q c K hs₁ h₁ hole
  have hi : v % 512 < 512 := Nat.mod_lt v (by norm_num)
  -- the entry is cleared when the page has been dealt with
  have hstore : ∀ s₂, Owned sym s₂ (pts q c + (K + R)) → wp (fun _ => True)
      (store (q * PGSIZE + 8 * (v % 512)) 0)
      (fun _ s' => Owned sym s' (tree 2 p (Function.update Φ v 0) + R)) s₂ := by
    intro s₂ h₂
    apply wp_store h₂ hi
    intro s₃ h₃
    rw [← add_assoc] at h₃
    exact h₃.mono_left (hole.put 0 (by norm_num))
  rw [wp_bind]
  apply wp_load h₁ hi
  rw [hole.word]
  refine wp_ite (fun _ => trivial) fun _ => wp_ite (fun _ => trivial) fun _ => ?_
  cases doFree with
  | false =>
    rw [freed, if_neg (by decide), zero_add] at h₁
    exact hstore s₁ h₁
  | true =>
    rw [if_pos rfl, wp_bind, PTE2PA_eq]
    have hpage : Owned sym s₁ (own (Φ v / 1024) + (pts q c + (K + R))) := by
      rw [freed, if_pos rfl] at h₁
      exact h₁.perm (by abel)
    exact wp_kfree hpage hstore

variable {va npages size perm : ℕ}

/-- A call of `uvmunmap` that returns has cleared the entries of its range. -/
lemma wp_uvmunmap_of_returns {doFree : Bool}
    (h : Owned sym s (tree 2 p Φ + (∑ i ∈ Finset.range (unmapRounds va npages),
      freed doFree (Φ (va / PGSIZE + i)) + R))) :
    wp (fun _ => True) (uvmunmap sym (p * PGSIZE) va npages doFree) (fun _ s' => PGSIZE ∣ va ∧
      Owned sym s' (tree 2 p (cleared Φ (va / PGSIZE) (va / PGSIZE + unmapRounds va npages))
        + R)) s := by
  rw [uvmunmap]
  refine wp_ite (fun _ => trivial) fun hva => ?_
  have hdvd : PGSIZE ∣ va := Nat.dvd_of_mod_eq_zero (not_not.mp hva)
  obtain ⟨v, rfl⟩ := hdvd
  rw [Nat.mul_comm PGSIZE v] at h ⊢
  rw [Nat.mul_div_cancel v PGSIZE_pos] at h ⊢
  generalize unmapRounds (v * PGSIZE) npages = k at h ⊢
  rw [Finset.range_eq_Ico] at h
  apply wp_forM_range fun i s => Owned sym s (tree 2 p (cleared Φ v (v + i))
    + (∑ j ∈ Finset.Ico i k, freed doFree (Φ (v + j)) + R))
  · rw [Nat.add_zero, cleared_self]
    exact h
  · intro i hi s₁ h₁
    have hsame : cleared Φ v (v + i) (v + i) = Φ (v + i) := by rw [cleared, if_neg (by omega)]
    rw [Finset.sum_eq_sum_Ico_succ_bot hi, add_assoc, ← hsame] at h₁
    rw [← Nat.add_mul]
    refine (wp_unmapPage_of_returns h₁).mono fun _ s₂ h₂ => ?_
    rw [← Nat.add_assoc, cleared_succ Φ (by omega)]
    exact h₂
  · intro s₁ h₁
    rw [Finset.Ico_self, Finset.sum_empty, zero_add] at h₁
    exact ⟨⟨v, Nat.mul_comm v PGSIZE⟩, h₁⟩

/-! ### The flat map and its entries -/

namespace Flat

lemma pte_map {pa : ℕ} (h : m.Mappable va size pa perm) :
    (m.map va size pa perm).pte = mapped m.pte (va / PGSIZE)
      ((va + size - 1) / PGSIZE - va / PGSIZE + 1) (pa / PGSIZE) (perm ||| PTE_V) := by
  have hsize := h.size_pos
  funext v
  have hmeets : Meets va size v ↔ va / PGSIZE ≤ v ∧
      v < va / PGSIZE + ((va + size - 1) / PGSIZE - va / PGSIZE + 1) := by
    rw [Meets]
    simp only [PGSIZE]
    omega
  simp only [pte, map, mapped, hmeets]
  split_ifs <;> rfl

lemma pte_unmap (hva : PGSIZE ∣ va) :
    (m.unmap va npages).pte
      = cleared m.pte (va / PGSIZE) (va / PGSIZE + unmapRounds va npages) := by
  obtain ⟨v, rfl⟩ := hva
  funext u
  have hrange : (PGSIZE * v ≤ u * PGSIZE ∧
      u * PGSIZE < (PGSIZE * v + npages * PGSIZE) % 2 ^ 64) ↔
      PGSIZE * v / PGSIZE ≤ u ∧ u < PGSIZE * v / PGSIZE + unmapRounds (PGSIZE * v) npages := by
    rw [unmapRounds]
    simp only [PGSIZE]
    omega
  simp only [pte, unmap, cleared, hrange]
  split_ifs <;> rfl

lemma Wf.map {pa : ℕ} (hm : m.Wf) (h : m.Mappable va size pa perm) :
    (m.map va size pa perm).Wf := by
  intro v q f hv
  simp only [Flat.map] at hv
  split_ifs at hv
  · obtain ⟨-, rfl⟩ : _ = q ∧ _ = f := by simpa using hv
    refine ⟨Nat.or_lt_two_pow (n := 10) h.perm_lt (by decide), ?_⟩
    rw [Nat.and_or_distrib_right]
    intro hzero
    have := Nat.or_eq_zero_iff.mp hzero
    exact absurd this.2 (by decide)
  · exact hm v q f hv

lemma Wf.unmap (hm : m.Wf) : (m.unmap va npages).Wf := by
  intro v q f hv
  simp only [Flat.unmap] at hv
  split_ifs at hv
  exact hm v q f hv

end Flat

/-- A range of pages is mapped if `mappages` returns 0. -/
lemma wp_mappages_flat {pa : ℕ} (h : Owned sym s (tree 2 p m.pte + R))
    (hm : m.Mappable va size pa perm) :
    wp F (mappages (p * PGSIZE) va size pa perm)
      (fun r s' => r = true → Owned sym s' (tree 2 p (m.map va size pa perm).pte + R)) s := by
  have hsize := hm.size_pos
  have hmax := hm.le_MAXVA
  have hpa := hm.pa_le
  rw [Flat.pte_map hm]
  obtain ⟨q, rfl⟩ := hm.dvd
  rw [mappages, if_neg (by omega)]
  -- the first and the last page of the range
  obtain ⟨k, hk⟩ : ∃ k, (va + size - 1) / PGSIZE = va / PGSIZE + k :=
    Nat.exists_eq_add_of_le (Nat.div_le_div_right (by omega))
  have hlast : PGROUNDDOWN ((va + size - 1) % 2 ^ 64) = (va / PGSIZE + k) * PGSIZE := by
    rw [MAXVA_eq] at hmax
    rw [PGROUNDDOWN, Nat.mod_eq_of_lt (by omega), hk]
  have hlt : (va / PGSIZE + k) * PGSIZE < MAXVA := by
    rw [← hk]
    have := Nat.div_mul_le_self (va + size - 1) PGSIZE
    omega
  rw [hk, Nat.add_sub_cancel_left] at hpa ⊢
  have hq : q + k < 2 ^ 44 := by
    simp only [PGSIZE] at hpa
    omega
  have hfuel : k < MAXVA / PGSIZE + 1 := by
    rw [MAXVA_eq] at hlt ⊢
    simp only [PGSIZE] at hlt ⊢
    omega
  rw [hlast, PGROUNDDOWN, Nat.mul_comm PGSIZE q, Nat.mul_div_cancel q PGSIZE_pos]
  refine wp_mappagesFrom h hlt ?_ hq hm.perm_lt hfuel ?_ ?_
  · intro v hv hv'
    have hmeets : Flat.Meets va size v := by
      rw [Flat.Meets]
      simp only [PGSIZE] at hv hv' hk ⊢
      omega
    simp only [Flat.pte, hm.unmapped v hmeets]
  · rintro _ _ _ _ ⟨⟩
  · exact fun s₁ h₁ _ => h₁

/-! ### The refinement -/

/-- The pages of the page table. -/
def pages : Option (ℕ × Flat) → Assn ℕ Page
  | none => 0
  | some (p, m) => tree 2 p m.pte

/-- The memory holds the page table, apart from the free pages and those that others hold. -/
structure Refines (sym : Symbols) (s : State) (t : Option (ℕ × Flat)) (X : Finset ℕ) : Prop where
  owned : Owned sym s (pages t + held X)
  wf : ∀ p m, t = some (p, m) → m.Wf

/-- The pages that `uvmunmap` frees are taken from those that were handed out. -/
lemma held_eq_removed (hnodup : (m.removed va npages).Nodup)
    (hX : ∀ q ∈ m.removed va npages, q ∈ X) :
    held X = ∑ i ∈ Finset.range (unmapRounds va npages), freed true (m.pte (va / PGSIZE + i))
      + held (X \ (m.removed va npages).toFinset) := by
  have hsub : (m.removed va npages).toFinset ⊆ X := by
    intro q hq
    exact hX q (List.mem_toFinset.mp hq)
  have himage : (m.removed va npages).toFinset
      = (Finset.range (unmapRounds va npages)).image fun i => m.pte (va / PGSIZE + i) / 1024 := by
    ext q
    simp [Flat.removed]
  have hinj : Set.InjOn (fun i => m.pte (va / PGSIZE + i) / 1024)
      (Finset.range (unmapRounds va npages) : Set ℕ) := by
    intro i hi j hj hij
    exact List.inj_on_of_nodup_map hnodup (by simpa using hi) (by simpa using hj) hij
  rw [held, held, ← Finset.sum_sdiff hsub, add_comm]
  congr 1
  rw [himage, Finset.sum_image hinj]
  rfl

/-- Every step keeps the relation between the tables in memory and the flat map. -/
lemma Built.refines {t : Option (ℕ × Flat)} (h : Built sym s t X) : Refines sym s t X := by
  induction h with
  | kinit hs hrun =>
    refine Coroutine.wp.returns (F := fun _ => True) (Q := fun _ s' => Refines sym s' none ∅) ?_
      hrun
    apply wp_kinit hs
    intro s₁ h₁
    exact ⟨by simpa [pages] using h₁, by simp⟩
  | @kalloc s s' t X r _ hrun ih =>
    refine Coroutine.wp.returns (F := fun _ => True) (Q := fun r s' => Refines sym s' t
      (if r = 0 then X else insert (r / PGSIZE) X)) ?_ hrun
    apply wp_kalloc ih.owned
    · exact fun s₁ h₁ => ⟨h₁, ih.wf⟩
    · intro q s₁ hq h₁
      have hne : q * PGSIZE ≠ 0 := Nat.mul_ne_zero (pos_of_mem_ram hq).ne' (by decide)
      rw [if_neg hne, Nat.mul_div_cancel q PGSIZE_pos]
      refine ⟨?_, ih.wf⟩
      rw [held_insert (notMem_of_owned h₁), add_left_comm]
      exact h₁
  | @kfree s s' t X q _ hq hrun ih =>
    refine Coroutine.wp.returns (F := fun _ => True) (Q := fun _ s' => Refines sym s' t
      (X.erase q)) ?_ hrun
    have hown := ih.owned
    rw [held_erase hq, add_left_comm] at hown
    exact wp_kfree hown fun s₁ h₁ => ⟨h₁, ih.wf⟩
  | @write s t X q c _ hq ih =>
    have hown := ih.owned
    rw [held_erase hq, add_left_comm] at hown
    obtain ⟨c', hc'⟩ := hown.exists_left
    have hset := hc'.setPage PGSIZE_pos fun _ => c
    rw [Nat.add_zero] at hset
    refine ⟨?_, ih.wf⟩
    rw [held_erase hq, add_left_comm]
    exact hset.mono_left (pts_subset_own q c)
  | @uvmcreate s s' X r _ hrun hr ih =>
    have hown : Owned sym s (held X) := by simpa [pages] using ih.owned
    refine Coroutine.wp.returns (F := fun _ => True) (Q := fun r s' => r ≠ 0 → Refines sym s'
      (some (r / PGSIZE, fun _ => none)) X) ?_ hrun hr
    apply wp_uvmcreate hown
    · exact fun _ _ hne => absurd rfl hne
    · intro p s₁ _ h₁ _
      rw [Nat.mul_div_cancel p PGSIZE_pos]
      exact ⟨h₁, by rintro _ _ ⟨⟩ v q f hv; cases hv⟩
  | @mappages s s' p m X va size pa perm _ hm hrun ih =>
    refine Coroutine.wp.returns (F := fun _ => True) (Q := fun r s' => r = true → Refines sym s'
      (some (p, m.map va size pa perm)) X) ?_ hrun rfl
    refine (wp_mappages_flat ih.owned hm).mono fun r s₁ h₁ hr => ⟨h₁ hr, ?_⟩
    rintro _ _ ⟨⟩
    exact (ih.wf p m rfl).map hm
  | @uvmunmap s s' p m X va npages _ hrun ih =>
    have hown : Owned sym s (tree 2 p m.pte + (∑ i ∈ Finset.range (unmapRounds va npages),
        freed false (m.pte (va / PGSIZE + i)) + held X)) := by
      have hown : Owned sym s (tree 2 p m.pte + held X) := ih.owned
      simpa [freed] using hown
    obtain ⟨hva, h'⟩ := (wp_uvmunmap_of_returns hown).returns hrun
    rw [← Flat.pte_unmap hva] at h'
    refine ⟨h', ?_⟩
    rintro _ _ ⟨⟩
    exact (ih.wf p m rfl).unmap
  | @uvmunmapFree s s' p m X va npages _ hnodup hX hrun ih =>
    have hown := ih.owned
    rw [held_eq_removed hnodup hX] at hown
    obtain ⟨hva, h'⟩ := (wp_uvmunmap_of_returns hown).returns hrun
    rw [← Flat.pte_unmap hva] at h'
    refine ⟨h', ?_⟩
    rintro _ _ ⟨⟩
    exact (ih.wf p m rfl).unmap

/-- The entry that `walk` has found, or 0, says what the flat map says. -/
def Entry (s : State) (r : Option ℕ) : Option (ℕ × ℕ) → Prop
  | none => ∀ a, r = some a → s.load a &&& PTE_V = 0
  | some (q, f) => ∃ a, r = some a ∧ s.load a &&& PTE_V ≠ 0 ∧ PTE2PA (s.load a) = q * PGSIZE ∧
      PTE_FLAGS (s.load a) = f

/-- A page table that was made by `uvmcreate` and changed by calls of `mappages` that returned 0 and
calls of `uvmunmap` that did not panic refines the flat map: for every address `walk` finds, without
a change of the memory, an entry with the physical page and the flags that were last established for
the page of the address, or nothing valid if there are none. -/
theorem walk_refines_flat (h : Built sym s (some (p, m)) X) {va : ℕ} (hva : va < MAXVA) :
    ∃ r, (walk (p * PGSIZE) va false).run s = .ok (r, s) ∧ Entry s r (m (va / PGSIZE)) := by
  have hr := h.refines
  have hm := hr.wf p m rfl
  have hown : Owned sym s (tree 2 p m.pte + held X) := hr.owned
  obtain ⟨r, s', hrun, rfl, hentry⟩ : ∃ r s', (walk (p * PGSIZE) va false).run s = .ok (r, s') ∧
      s' = s ∧ Entry s' r (m (va / PGSIZE)) := by
    apply Coroutine.wp.exists_run
    apply wp_walk_addr hown hva
    · intro s' hs' _
      obtain ⟨rfl, hzero⟩ := hs' rfl
      refine ⟨rfl, ?_⟩
      cases hv : m (va / PGSIZE) with
      | none => rintro _ ⟨⟩
      | some e =>
        obtain ⟨q, f⟩ := e
        simp only [Flat.pte, hv] at hzero
        obtain rfl : f = 0 := by omega
        exact absurd rfl (hm _ _ _ hv).2
    · intro s' q c K hs' h' hole
      obtain rfl := hs' rfl
      refine ⟨rfl, ?_⟩
      have hload : s'.load (q * PGSIZE + 8 * (va / PGSIZE % 512)) = m.pte (va / PGSIZE) := by
        rw [h'.load (Nat.mod_lt _ (by norm_num)), hole.word]
      cases hv : m (va / PGSIZE) with
      | none =>
        rintro _ ⟨⟩
        rw [hload]
        simp [Flat.pte, hv]
      | some e =>
        obtain ⟨q', f⟩ := e
        obtain ⟨hlt, hvalid⟩ := hm _ _ _ hv
        have hpte : m.pte (va / PGSIZE) = q' * 1024 + f := by simp only [Flat.pte, hv]
        have hmod : (q' * 1024 + f) % 1024 = f := by omega
        have hdiv : (q' * 1024 + f) / 1024 = q' := by omega
        refine ⟨_, rfl, ?_, ?_, ?_⟩
        · rw [hload, hpte, and_flags _ (by decide), hmod]
          exact hvalid
        · rw [hload, hpte, PTE2PA_eq, hdiv]
        · rw [hload, hpte, PTE_FLAGS, hmod]
  exact ⟨r, hrun, hentry⟩

/-- A machine with three pages of memory. -/
def tiny : Symbols where
  kend := PHYSTOP - 3 * PGSIZE
  trampoline := KERNBASE
  le_kend := by decide
  kend_le := by decide
  dvd_trampoline := by decide
  trampoline_lt := by decide

/-- The state in which a program returns. -/
def after {α : Type} (c : VmM α) (s : State) : State :=
  match c.run s with
  | .ok (_, s') => s'
  | .error _ => s

lemma run_eq_after {α : Type} {c : VmM α} {a : α}
    (h : (c.run s).toOption.map Prod.fst = some a) : c.run s = .ok (a, after c s) := by
  unfold after
  cases hc : c.run s with
  | error e => simp [hc, Except.toOption] at h
  | ok r =>
    obtain rfl : r.1 = a := by simpa [hc, Except.toOption] using h
    rfl

/-- The three pages are used up by the tables for `[5000, 9000)`, which lies in two virtual
pages. -/
theorem walk_refines_flat_tiny : ∃ s p m, Built tiny s (some (p, m)) ∅ ∧
    m 1 = some (65536, 7) ∧ m 2 = some (65537, 7) ∧
    ∃ r, (walk (p * PGSIZE) 8999 false).run s = .ok (r, s) ∧ Entry s r (some (65537, 7)) := by
  let s₀ : State := ⟨fun _ => .fill 0, 0, []⟩
  let s₁ := after (kinit tiny) s₀
  let s₂ := after uvmcreate s₁
  let s₃ := after (mappages (557055 * PGSIZE) 5000 4000 0x10000000 (PTE_R ||| PTE_W)) s₂
  have h₁ : Built tiny s₁ none ∅ := .kinit (s := s₀) rfl (run_eq_after (by decide +kernel))
  have h₂ : Built tiny s₂ (some (557055, fun _ => none)) ∅ := by
    have h := h₁.uvmcreate (r := 557055 * PGSIZE) (run_eq_after (by decide +kernel)) (by decide)
    rwa [Nat.mul_div_cancel _ PGSIZE_pos] at h
  have hm : Flat.Mappable (fun _ => none) 5000 4000 0x10000000 (PTE_R ||| PTE_W) :=
    ⟨by decide, by decide, fun _ _ => rfl, by decide, by decide, by decide⟩
  have h₃ : Built tiny s₃ _ _ := h₂.mappages hm (run_eq_after (by decide +kernel))
  exact ⟨s₃, _, _, h₃, by decide, by decide, walk_refines_flat h₃ (by decide)⟩

end Xv6.Vm
