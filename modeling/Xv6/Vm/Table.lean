import Xv6.Core.Sep
import Xv6.Vm.Basic

/-!
# Ownership of pages

The free list and the page tables as assertions about physical memory, and the functions of
`kernel/kalloc.c` and `kernel/vm.c` as transformations of such assertions. What a function says
nothing about is its last summand `R`, which it leaves alone; so a page that is freed was owned, and
a page that is allocated is different from all others.
-/

namespace Xv6.Vm

open Core Coroutine Assn
open scoped Pointwise

/-! ### The free list -/

/-- The pages of `[PGROUNDUP(end), PHYSTOP)`. -/
def ram (sym : Symbols) : Finset ℕ := Finset.Ico (PGROUNDUP sym.kend / PGSIZE) (PHYSTOP / PGSIZE)

/-- The pages of the list from `head` on. -/
def chain : ℕ → List ℕ → Assn ℕ Page
  | head, [] => {x | head = 0 ∧ x = 0}
  | head, p :: l => {x | ∃ c, head = p * PGSIZE ∧ x ∈ pts p c + chain (c.word 0) l}

/-- Apart from the free list, the memory satisfies `R`. -/
def Owned (sym : Symbols) (s : State) (R : Assn ℕ Page) : Prop :=
  ∃ l, Holds (ram sym) s.page (chain s.freelist l + R)

variable {sym : Symbols} {s : State} {A B R : Assn ℕ Page} {F : Panic → Prop} {p : ℕ} {c : Page}

lemma kend_le_of_mem_ram (hp : p ∈ ram sym) : sym.kend ≤ p * PGSIZE := by
  have hle : PGROUNDUP sym.kend / PGSIZE ≤ p := (Finset.mem_Ico.mp hp).1
  have hkend := sym.kend_le
  rw [PHYSTOP_eq] at hkend
  rw [PGROUNDUP, PGSIZE] at hle
  rw [PGSIZE]
  omega

lemma lt_of_mem_ram (hp : p ∈ ram sym) : p < 557056 := by
  have hlt : p < PHYSTOP / PGSIZE := (Finset.mem_Ico.mp hp).2
  rw [PHYSTOP_eq, PGSIZE] at hlt
  omega

lemma lt_PHYSTOP_of_mem_ram (hp : p ∈ ram sym) : p * PGSIZE < PHYSTOP := by
  have hlt := lt_of_mem_ram hp
  rw [PHYSTOP_eq, PGSIZE]
  omega

lemma pos_of_mem_ram (hp : p ∈ ram sym) : 0 < p := by
  have hle := kend_le_of_mem_ram hp
  have hkend := sym.le_kend
  rw [KERNBASE_eq] at hkend
  rw [PGSIZE] at hle
  omega

lemma PGSIZE_pos : 0 < PGSIZE := by decide

/-- Places in a page. -/
lemma addr_div {p o : ℕ} (ho : o < PGSIZE) : (p * PGSIZE + o) / PGSIZE = p := by
  simp only [PGSIZE] at *
  omega

lemma addr_mod {p o : ℕ} (ho : o < PGSIZE) : (p * PGSIZE + o) % PGSIZE = o := by
  simp only [PGSIZE] at *
  omega

variable {i : ℕ}

namespace Owned

lemma mono (h : Owned sym s A) (hAB : A ⊆ B) : Owned sym s B := by
  obtain ⟨l, hl⟩ := h
  exact ⟨l, hl.mono (Set.add_subset_add_left hAB)⟩

lemma mono_left (h : Owned sym s (A + R)) (hAB : A ⊆ B) : Owned sym s (B + R) :=
  h.mono (Set.add_subset_add_right hAB)

lemma perm (h : Owned sym s A) (hAB : A = B) : Owned sym s B := hAB ▸ h

lemma exists_left {ι : Type} {P : ι → Assn ℕ Page} (h : Owned sym s ({y | ∃ i, y ∈ P i} + R)) :
    ∃ i, Owned sym s (P i + R) := by
  obtain ⟨l, hl⟩ := h
  obtain ⟨i, hi⟩ := (hl.perm (add_left_comm _ _ _)).exists_left
  exact ⟨i, l, hi.perm (add_left_comm _ _ _)⟩

/-- A page is in memory. -/
lemma pts_left (h : Owned sym s (pts p c + R)) : ∃ l, Holds (ram sym) s.page
    (pts p c + (chain s.freelist l + R)) := by
  obtain ⟨l, hl⟩ := h
  exact ⟨l, hl.perm (add_left_comm _ _ _)⟩

lemma mem (h : Owned sym s (own p + R)) : p ∈ ram sym := by
  obtain ⟨c, hc⟩ := h.exists_left
  obtain ⟨l, hl⟩ := hc.pts_left
  exact hl.mem

lemma read (h : Owned sym s (pts p c + R)) : s.page p = c := by
  obtain ⟨l, hl⟩ := h.pts_left
  exact hl.read

lemma load (h : Owned sym s (pts p c + R)) (hi : i < 512) :
    s.load (p * PGSIZE + 8 * i) = c.word i := by
  have ho : 8 * i < PGSIZE := by
    simp only [PGSIZE]
    omega
  rw [State.load, addr_div ho, addr_mod ho, h.read, Nat.mul_div_cancel_left i (by norm_num)]

/-- A page is written. -/
lemma setPage (h : Owned sym s (pts p c + R)) {o : ℕ} (ho : o < PGSIZE) (f : Page → Page) :
    Owned sym (s.setPage (p * PGSIZE + o) f) (pts p (f c) + R) := by
  have hread := h.read
  obtain ⟨l, hl⟩ := h.pts_left
  refine ⟨l, ?_⟩
  rw [State.setPage, addr_div ho, hread]
  exact (hl.write (f c)).perm (add_left_comm _ _ _)

/-- The head of the free list is null or a page. -/
lemma freelist_lt (h : Owned sym s R) : s.freelist < 2 ^ 64 := by
  obtain ⟨l, hl⟩ := h
  cases l with
  | nil =>
    obtain ⟨x, ⟨hzero, -⟩, -⟩ := hl
    rw [hzero]
    norm_num
  | cons p l =>
    obtain ⟨c, hc⟩ := hl.exists_left
    obtain ⟨y, ⟨hhead, hy⟩, z, hz, heq⟩ := hc
    have hholds : Holds (ram sym) s.page (pts p c + (chain (c.word 0) l + R)) := by
      rw [← add_assoc]
      exact ⟨y, hy, z, hz, heq⟩
    have := lt_of_mem_ram hholds.mem
    rw [hhead, PGSIZE]
    omega

end Owned

/-! ### Commands -/

section Commands

variable {Q : PUnit → State → Prop} {o : ℕ}

lemma wp_setPage (h : Owned sym s (pts p c + R)) (ho : o < PGSIZE) {f : Page → Page}
    (hQ : ∀ s', Owned sym s' (pts p (f c) + R) → Q ⟨⟩ s') :
    wp F (setPage (p * PGSIZE + o) f) Q s := hQ _ (h.setPage ho f)

lemma wp_memset (h : Owned sym s (own p + R)) {b : UInt8}
    (hQ : ∀ s', Owned sym s' (pts p (.fill b) + R) → Q ⟨⟩ s') :
    wp F (memset (p * PGSIZE) b) Q s := by
  obtain ⟨c, hc⟩ := h.exists_left
  have hset := hc.setPage PGSIZE_pos fun _ => .fill b
  rw [Nat.add_zero] at hset
  exact hQ _ hset

lemma wp_load {Q : ℕ → State → Prop} (h : Owned sym s (pts p c + R)) (hi : i < 512)
    (hQ : Q (c.word i) s) : wp F (load (p * PGSIZE + 8 * i)) Q s := by
  show Q (s.load (p * PGSIZE + 8 * i)) s
  rw [h.load hi]
  exact hQ

lemma wp_store (h : Owned sym s (pts p c + R)) (hi : i < 512) {w : ℕ}
    (hQ : ∀ s', Owned sym s' (pts p (c.setWord i w) + R) → Q ⟨⟩ s') :
    wp F (store (p * PGSIZE + 8 * i) w) Q s := by
  have ho : 8 * i < PGSIZE := by
    simp only [PGSIZE]
    omega
  have hw := h.setPage ho fun c => c.setWord i w
  apply hQ
  show Owned sym (s.setPage (p * PGSIZE + 8 * i)
    fun c => c.setWord ((p * PGSIZE + 8 * i) % PGSIZE / 8) w) _
  rw [addr_mod ho, Nat.mul_div_cancel_left i (by norm_num)]
  exact hw

end Commands

/-- A page of the free list is taken, unless there is none. -/
lemma wp_kalloc {Q : ℕ → State → Prop} (h : Owned sym s R) (hnone : ∀ s', Owned sym s' R → Q 0 s')
    (hsome : ∀ p s', p ∈ ram sym → Owned sym s' (own p + R) → Q (p * PGSIZE) s') :
    wp F kalloc Q s := by
  simp only [kalloc, wp_bind, wp_get, wp_modify]
  have hdenied : Owned sym { s with deny := s.deny.tail } R := h
  by_cases hdeny : s.deny.headD false = true
  · rw [if_pos (.inr hdeny)]
    exact hnone _ hdenied
  rw [show s.freelist = State.freelist { s with deny := s.deny.tail } from rfl]
  generalize State.mk s.page s.freelist s.deny.tail = s at hdenied ⊢
  obtain ⟨l, hl⟩ := hdenied
  cases l with
  | nil =>
    have hzero : s.freelist = 0 := by
      obtain ⟨x, ⟨hzero, -⟩, -⟩ := hl
      exact hzero
    rw [if_pos (.inl hzero)]
    exact hnone s ⟨[], hl⟩
  | cons p l =>
    obtain ⟨c, y, ⟨hhead, hy⟩, z, hz, heq⟩ := hl.exists_left
    have hholds : Holds (ram sym) s.page (pts p c + (chain (c.word 0) l + R)) := by
      rw [← add_assoc]
      exact ⟨y, hy, z, hz, heq⟩
    have hpos := pos_of_mem_ram hholds.mem
    have hne : p * PGSIZE ≠ 0 := Nat.mul_ne_zero hpos.ne' (by decide)
    have hload : s.load (p * PGSIZE) = c.word 0 := by
      have := hholds.read
      rw [← Nat.add_zero (p * PGSIZE), State.load, addr_div (by decide), addr_mod (by decide), this]
    rw [hhead, if_neg fun h => h.elim hne hdeny]
    simp only [load, memset, setPage, wp_bind, wp_get, wp_pure, wp_modify, hload]
    apply hsome p _ hholds.mem
    refine ⟨l, ?_⟩
    have hwrite := (hholds.write (Page.fill 5)).mono_left (pts_subset_own p _)
    rw [State.setPage, ← Nat.add_zero (p * PGSIZE), addr_div (by decide)]
    exact hwrite.perm (add_left_comm _ _ _)

/-- An owned page is given back. -/
lemma wp_kfree {Q : PUnit → State → Prop} (h : Owned sym s (own p + R))
    (hQ : ∀ s', Owned sym s' R → Q ⟨⟩ s') : wp F (kfree sym (p * PGSIZE)) Q s := by
  have hmem := h.mem
  have hle := kend_le_of_mem_ram hmem
  have hlt := lt_PHYSTOP_of_mem_ram hmem
  have hmod : p * PGSIZE % PGSIZE = 0 := Nat.mul_mod_left _ _
  obtain ⟨c, hc⟩ := h.exists_left
  have hfree := hc.freelist_lt
  -- the page with the link to the old list
  have hlink : ((Page.fill 1).setWord 0 s.freelist).word 0 = s.freelist := by
    rw [Page.word_setWord_self _ _ (by norm_num), Nat.mod_eq_of_lt hfree]
  have hwrite := (hc.setPage PGSIZE_pos fun _ => .fill 1).setPage PGSIZE_pos
    fun c => c.setWord 0 s.freelist
  rw [Nat.add_zero] at hwrite
  obtain ⟨l, hl⟩ := hwrite
  rw [kfree, if_neg (by omega)]
  simp only [memset, store, setPage, wp_bind, wp_modify, wp_get, hmod, Nat.zero_div]
  refine hQ _ ⟨p :: l, ?_⟩
  obtain ⟨x, hx, y, ⟨z, hz, r, hr, rfl⟩, heq⟩ := hl
  refine ⟨z + x, ⟨_, rfl, z, hz, x, ?_, rfl⟩, r, hr, ?_⟩
  · rw [hlink]
    exact hx
  · refine Eq.trans ?_ heq
    show z + x + r = x + (z + r)
    abel

/-! ### Entries -/

/-- Tests of flags look at the ten low bits. -/
lemma and_flags (w : ℕ) {m : ℕ} (hm : m < 1024) : w &&& m = w % 1024 &&& m := by
  have hlt : w &&& m < 2 ^ 10 := Nat.lt_of_le_of_lt Nat.and_le_right hm
  have hmod := Nat.and_mod_two_pow (a := w) (b := m) (n := 10)
  rw [Nat.mod_eq_of_lt hlt, Nat.mod_eq_of_lt (show m < 2 ^ 10 from hm)] at hmod
  exact hmod

variable {q : ℕ}

/-- The entry for the page `q` with flags `f`. -/
lemma PA2PTE_or {f : ℕ} (hf : f < 1024) : PA2PTE (q * PGSIZE) ||| f = q * 1024 + f := by
  have hshift : PA2PTE (q * PGSIZE) = q <<< 10 := by
    rw [PA2PTE, Nat.shiftRight_eq_div_pow, PGSIZE, Nat.mul_div_cancel q (by norm_num)]
  rw [hshift, ← Nat.shiftLeft_add_eq_or_of_lt (show f < 2 ^ 10 from hf), Nat.shiftLeft_eq]

lemma PTE2PA_eq (w : ℕ) : PTE2PA w = w / 1024 * PGSIZE := by
  rw [PTE2PA, Nat.shiftRight_eq_div_pow, Nat.shiftLeft_eq, PGSIZE]

/-- The entry maps a page. -/
def Leaf (w : ℕ) : Prop := w &&& PTE_V ≠ 0 ∧ w &&& (PTE_R ||| PTE_W ||| PTE_X) ≠ 0

lemma Leaf.flags_ne {w : ℕ} (h : Leaf w) : PTE_FLAGS w ≠ PTE_V := by
  intro heq
  apply h.2
  rw [and_flags w (by decide)]
  show PTE_FLAGS w &&& _ = 0
  rw [heq]
  decide

lemma leaf_add {f : ℕ} (hf : f < 1024) (hv : f &&& PTE_V ≠ 0)
    (hrwx : f &&& (PTE_R ||| PTE_W ||| PTE_X) ≠ 0) : Leaf (q * 1024 + f) := by
  have hmod : (q * 1024 + f) % 1024 = f := by omega
  constructor
  · rw [and_flags _ (by decide), hmod]
    exact hv
  · rw [and_flags _ (by decide), hmod]
    exact hrwx

/-! ### Page tables -/

/-- What an entry of an upper level stands for: nothing, or a table of the next level `T` for `n`
pages. -/
def sub (T : ℕ → (ℕ → ℕ) → Assn ℕ Page) (n w : ℕ) (Φ : ℕ → ℕ) : Assn ℕ Page :=
  {x | (w = 0 ∧ x = 0 ∧ ∀ v < n, Φ v = 0) ∨ ∃ q, w = q * 1024 + PTE_V ∧ x ∈ T q Φ}

lemma mem_indices : i ∈ indices.toFinset ↔ i < 512 := by
  rw [indices_eq, List.mem_toFinset]
  exact List.mem_range

/-- The page-table pages from the page `p` on, of the level `l`, in which the entry of each virtual
page is given by `Φ`. -/
def tree : ℕ → ℕ → (ℕ → ℕ) → Assn ℕ Page
  | 0, p, Φ => {x | ∃ c, x ∈ pts p c ∧ ∀ i < 512, c.word i = Φ i}
  | l + 1, p, Φ => {x | ∃ c, x ∈ pts p c + ∑ i ∈ indices.toFinset,
      sub (tree l) (512 ^ (l + 1)) (c.word i) fun v => Φ (i * 512 ^ (l + 1) + v)}

section Tree

variable {l : ℕ} {Φ Ψ : ℕ → ℕ}

/-- The virtual pages under the entry `i`. -/
lemma index_lt {v : ℕ} (hi : i < 512) (hv : v < 512 ^ (l + 1)) :
    i * 512 ^ (l + 1) + v < 512 ^ (l + 1 + 1) := by
  calc i * 512 ^ (l + 1) + v < i * 512 ^ (l + 1) + 512 ^ (l + 1) := by omega
    _ = (i + 1) * 512 ^ (l + 1) := by ring
    _ ≤ 512 * 512 ^ (l + 1) := Nat.mul_le_mul_right _ hi
    _ = 512 ^ (l + 1 + 1) := (pow_succ' 512 (l + 1)).symm

lemma index_inj {j u v : ℕ} (hu : u < 512 ^ (l + 1)) (hv : v < 512 ^ (l + 1))
    (h : i * 512 ^ (l + 1) + u = j * 512 ^ (l + 1) + v) : i = j := by
  have hpos : 0 < 512 ^ (l + 1) := by positivity
  have hdiv : (i * 512 ^ (l + 1) + u) / 512 ^ (l + 1) =
    (j * 512 ^ (l + 1) + v) / 512 ^ (l + 1) := by
    rw [h]
  rwa [Nat.add_comm, Nat.add_mul_div_right _ _ hpos, Nat.div_eq_of_lt hu, Nat.zero_add,
    Nat.add_comm, Nat.add_mul_div_right _ _ hpos, Nat.div_eq_of_lt hv, Nat.zero_add] at hdiv

lemma sub_congr {T : ℕ → (ℕ → ℕ) → Assn ℕ Page} {n w : ℕ} (hT : ∀ q, T q Φ = T q Ψ)
    (h : ∀ v < n, Φ v = Ψ v) : sub T n w Φ = sub T n w Ψ := by
  ext x
  simp only [sub, Set.mem_ofPred_eq, hT]
  have hzero : (∀ v < n, Φ v = 0) ↔ ∀ v < n, Ψ v = 0 := by
    constructor
    · intro hΦ v hv
      rw [← h v hv, hΦ v hv]
    · intro hΨ v hv
      rw [h v hv, hΨ v hv]
  rw [hzero]

/-- A table depends on its own virtual pages only. -/
lemma tree_congr (h : ∀ v < 512 ^ (l + 1), Φ v = Ψ v) : tree l p Φ = tree l p Ψ := by
  induction l generalizing p Φ Ψ with
  | zero =>
    ext x
    have hΦ : ∀ i < 512, Φ i = Ψ i := fun i hi => h i (by rwa [zero_add, pow_one])
    constructor
    · rintro ⟨c, hx, hc⟩
      exact ⟨c, hx, fun i hi => (hc i hi).trans (hΦ i hi)⟩
    · rintro ⟨c, hx, hc⟩
      exact ⟨c, hx, fun i hi => (hc i hi).trans (hΦ i hi).symm⟩
  | succ l ih =>
    have hsum : ∀ c : Page, ∑ i ∈ indices.toFinset,
        sub (tree l) (512 ^ (l + 1)) (c.word i) (fun v => Φ (i * 512 ^ (l + 1) + v))
        = ∑ i ∈ indices.toFinset,
        sub (tree l) (512 ^ (l + 1)) (c.word i) (fun v => Ψ (i * 512 ^ (l + 1) + v)) := by
      intro c
      apply Finset.sum_congr rfl
      intro i hi
      have hΦ : ∀ v < 512 ^ (l + 1), Φ (i * 512 ^ (l + 1) + v) = Ψ (i * 512 ^ (l + 1) + v) := by
        exact fun v hv => h _ (index_lt (mem_indices.mp hi) hv)
      exact sub_congr (fun q => ih hΦ) hΦ
    ext x
    simp only [tree, Set.mem_ofPred_eq, hsum]

/-- A cleared page is a table without entries. -/
lemma pts_zero_subset_tree (hΦ : ∀ v < 512 ^ (l + 1), Φ v = 0) : pts p (.fill 0) ⊆ tree l p Φ := by
  intro x hx
  cases l with
  | zero =>
    refine ⟨_, hx, ?_⟩
    intro i hi
    rw [Page.word_fill_zero, hΦ i (by rwa [zero_add, pow_one])]
  | succ l =>
    have hsum : (0 : Multiset (ℕ × Page)) ∈ ∑ i ∈ indices.toFinset, sub (tree l) (512 ^ (l + 1))
        ((Page.fill 0).word i) fun v => Φ (i * 512 ^ (l + 1) + v) := by
      apply zero_mem_sum
      intro i hi
      refine .inl ⟨Page.word_fill_zero i, rfl, ?_⟩
      exact fun v hv => hΦ _ (index_lt (mem_indices.mp hi) hv)
    have hadd := Set.add_mem_add hx hsum
    rw [add_zero] at hadd
    exact ⟨_, hadd⟩

/-- The table at an upper level without the entry `i`. -/
def others (l p : ℕ) (c : Page) (Φ : ℕ → ℕ) (i : ℕ) : Assn ℕ Page :=
  pts p c + ∑ j ∈ indices.toFinset.erase i,
    sub (tree l) (512 ^ (l + 1)) (c.word j) fun v => Φ (j * 512 ^ (l + 1) + v)

lemma tree_succ_eq (hi : i < 512) : tree (l + 1) p Φ = {x | ∃ c, x ∈
    sub (tree l) (512 ^ (l + 1)) (c.word i) (fun v => Φ (i * 512 ^ (l + 1) + v))
      + others l p c Φ i} := by
  ext x
  simp only [tree, others, Set.mem_ofPred_eq]
  apply exists_congr
  intro c
  rw [← Finset.add_sum_erase _ _ (mem_indices.mpr hi), add_left_comm]

lemma others_congr
    (h : ∀ j ≠ i, ∀ v < 512 ^ (l + 1), Φ (j * 512 ^ (l + 1) + v) = Ψ (j * 512 ^ (l + 1) + v)) :
    others l p c Φ i = others l p c Ψ i := by
  have hsum : ∑ j ∈ indices.toFinset.erase i,
      sub (tree l) (512 ^ (l + 1)) (c.word j) (fun v => Φ (j * 512 ^ (l + 1) + v))
      = ∑ j ∈ indices.toFinset.erase i,
      sub (tree l) (512 ^ (l + 1)) (c.word j) (fun v => Ψ (j * 512 ^ (l + 1) + v)) := by
    apply Finset.sum_congr rfl
    intro j hj
    have hj' := h j (Finset.ne_of_mem_erase hj)
    exact sub_congr (fun q => tree_congr hj') hj'
  rw [others, others, hsum]

/-- A table below the entry `i` is put back. -/
lemma tree_add_others_subset (hi : i < 512) (hc : c.word i = q * 1024 + PTE_V) :
    tree l q (fun v => Φ (i * 512 ^ (l + 1) + v)) + others l p c Φ i ⊆ tree (l + 1) p Φ := by
  rw [tree_succ_eq hi]
  intro x hx
  exact ⟨c, Set.add_subset_add_right (fun y hy => .inr ⟨q, hc, hy⟩) hx⟩

/-- The entry `i` is empty. -/
lemma others_subset_tree (hi : i < 512) (hc : c.word i = 0)
    (hΦ : ∀ v < 512 ^ (l + 1), Φ (i * 512 ^ (l + 1) + v) = 0) :
    others l p c Φ i ⊆ tree (l + 1) p Φ := by
  rw [tree_succ_eq hi]
  intro x hx
  exact ⟨c, 0, .inl ⟨hc, rfl, hΦ⟩, x, hx, zero_add x⟩

/-- The virtual page in a table of the level `l`. -/
def vpn (l va : ℕ) : ℕ := va / PGSIZE % 512 ^ (l + 1)

lemma PX_eq (l va : ℕ) : PX l va = va / PGSIZE / 512 ^ l % 512 := by
  rw [PX, Nat.shiftRight_eq_div_pow, pow_add, pow_mul, Nat.div_div_eq_div_mul, PGSIZE]
  norm_num

lemma PX_lt (l va : ℕ) : PX l va < 512 := Nat.mod_lt _ (by norm_num)

lemma PX_zero (l va : ℕ) : PX 0 va = vpn l va % 512 := by
  rw [PX_eq, pow_zero, Nat.div_one, vpn, Nat.mod_mod_of_dvd]
  exact Dvd.intro_left (512 ^ l) rfl

lemma vpn_lt (l va : ℕ) : vpn l va < 512 ^ (l + 1) := Nat.mod_lt _ (by positivity)

lemma vpn_succ (l va : ℕ) : vpn (l + 1) va = PX (l + 1) va * 512 ^ (l + 1) + vpn l va := by
  rw [vpn, vpn, PX_eq, pow_succ 512 (l + 1), Nat.mod_mul, add_comm, mul_comm]

/-- The page `q` holds the entry of the virtual page `v` of a table, whose other pages are `K`. -/
structure Hole (l p : ℕ) (Φ : ℕ → ℕ) (v q : ℕ) (c : Page) (K : Assn ℕ Page) : Prop where
  word : c.word (v % 512) = Φ v
  fold : pts q c + K ⊆ tree l p Φ
  put : ∀ w < 2 ^ 64, pts q (c.setWord (v % 512) w) + K ⊆ tree l p (Function.update Φ v w)

lemma hole_zero {va : ℕ} (hc : ∀ i < 512, c.word i = Φ i) : Hole 0 p Φ (vpn 0 va) p c 0 := by
  have hlt : vpn 0 va < 512 := vpn_lt 0 va
  have hmod : vpn 0 va % 512 = vpn 0 va := Nat.mod_eq_of_lt hlt
  refine ⟨?_, ?_, ?_⟩
  · rw [hmod]
    exact hc _ hlt
  · rw [add_zero]
    exact fun x hx => ⟨c, hx, hc⟩
  · intro w hw
    rw [add_zero, hmod]
    refine fun x hx => ⟨_, hx, ?_⟩
    intro i hi
    rcases eq_or_ne i (vpn 0 va) with rfl | hne
    · rw [Page.word_setWord_self _ _ hi, Function.update_self, Nat.mod_eq_of_lt hw]
    · rw [Page.word_setWord_of_ne _ _ hne, Function.update_of_ne hne]
      exact hc i hi

/-- The entry is below the entry of an upper level. -/
lemma Hole.succ {va q' : ℕ} {c' : Page} {K : Assn ℕ Page}
    (h : Hole l q' (fun v => Φ (PX (l + 1) va * 512 ^ (l + 1) + v)) (vpn l va) q c K)
    (hc' : c'.word (PX (l + 1) va) = q' * 1024 + PTE_V) :
    Hole (l + 1) p Φ (vpn (l + 1) va) q c (K + others l p c' Φ (PX (l + 1) va)) := by
  have hi := PX_lt (l + 1) va
  have hmod : vpn (l + 1) va % 512 = vpn l va % 512 := by rw [← PX_zero, ← PX_zero]
  set i := PX (l + 1) va with hidef
  refine ⟨?_, ?_, ?_⟩
  · rw [hmod, h.word, vpn_succ]
  · rw [← add_assoc]
    exact (Set.add_subset_add_right h.fold).trans (tree_add_others_subset hi hc')
  · intro w hw
    rw [hmod, ← add_assoc, vpn_succ]
    refine (Set.add_subset_add_right (h.put w hw)).trans ?_
    have hself : (Function.update (fun v => Φ (i * 512 ^ (l + 1) + v)) (vpn l va) w)
        = fun v => Function.update Φ (i * 512 ^ (l + 1) + vpn l va) w (i * 512 ^ (l + 1) + v) := by
      funext v
      rcases eq_or_ne v (vpn l va) with rfl | hv
      · rw [Function.update_self, Function.update_self]
      · rw [Function.update_of_ne hv, Function.update_of_ne (by omega)]
    have hothers : others l p c' Φ i
        = others l p c' (Function.update Φ (i * 512 ^ (l + 1) + vpn l va) w) i := by
      apply others_congr
      intro j hji v hv
      rw [Function.update_of_ne]
      exact fun heq => hji (index_inj hv (vpn_lt l va) heq)
    rw [hself, hothers]
    exact tree_add_others_subset hi hc'

end Tree

end Xv6.Vm
