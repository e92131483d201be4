import Xv6.Vm.Process

/-!
# User addresses

What `walkaddr` finds in a page table, whatever the memory holds, and what user memory a page table
therefore gives. For the page table of an address space this is the memory of the address space.
-/

namespace Xv6.Vm

open Core Coroutine Assn
open scoped Pointwise

variable {sym : Symbols} {s : State} {R : Assn ℕ Page} {F : Panic → Prop} {pagetable va va' : ℕ}

namespace State

/-- The entry that `walk` finds for a virtual address, 0 if there is none. -/
def entry (s : State) (pagetable va : ℕ) : ℕ :=
  match (walk pagetable va false).run s with
  | .ok (some a, _) => s.load a
  | _ => 0

/-- The page of the virtual address is mapped, valid and open to the user. A page at the physical
address 0, which the kernel never maps, counts as not mapped. -/
def Accessible (s : State) (pagetable va : ℕ) : Prop :=
  va < MAXVA ∧ s.entry pagetable va &&& PTE_V ≠ 0 ∧ s.entry pagetable va &&& PTE_U ≠ 0 ∧
    PTE2PA (s.entry pagetable va) ≠ 0

instance (s : State) (pagetable va : ℕ) : Decidable (s.Accessible pagetable va) :=
  inferInstanceAs (Decidable (_ ∧ _))

/-- The physical page of a virtual address, and its place in the page. -/
def place (s : State) (pagetable va : ℕ) : ℕ × ℕ :=
  (PTE2PA (s.entry pagetable va) / PGSIZE, va % PGSIZE)

/-- The byte at a virtual address. -/
def byteAt (s : State) (pagetable va : ℕ) : UInt8 :=
  (s.page (s.place pagetable va).1).byte (s.place pagetable va).2

/-- User memory as a page table gives it. -/
def user (s : State) (pagetable va : ℕ) : Option UInt8 :=
  if s.Accessible pagetable va then some (s.byteAt pagetable va) else none

end State

/-! ### Any page table -/

/-- Without `alloc`, `walk` only reads. -/
lemma wp_walkFrom_read (l p : ℕ) : wp F (walkFrom false l p va) (fun _ s' => s' = s) s := by
  induction l generalizing p with
  | zero => rfl
  | succ l ih =>
    simp only [walkFrom, load, wp_bind, wp_get, wp_pure]
    apply wp_ite
    · exact fun _ => ih _
    · exact fun _ => rfl

lemma walk_run (hva : va < MAXVA) : ∃ r, (walk pagetable va false).run s = .ok (r, s) := by
  have hwp : wp (fun _ => False) (walk pagetable va false) (fun _ s' => s' = s) s := by
    rw [walk, if_neg (by omega)]
    exact wp_walkFrom_read 2 pagetable
  obtain ⟨r, s', hrun, rfl⟩ := hwp.exists_run
  exact ⟨r, hrun⟩

/-- `walk` looks at the page number only. -/
lemma walkFrom_congr {alloc : Bool} (h : va / PGSIZE = va' / PGSIZE) (l p : ℕ) :
    walkFrom alloc l p va = walkFrom alloc l p va' := by
  have hPX : ∀ k, PX k va = PX k va' := by
    intro k
    rw [PX_eq, PX_eq, h]
  induction l generalizing p with
  | zero => simp only [walkFrom, hPX]
  | succ l ih => simp only [walkFrom, hPX, ih]

lemma lt_MAXVA_congr (h : va / PGSIZE = va' / PGSIZE) : va < MAXVA ↔ va' < MAXVA := by
  rw [MAXVA_eq]
  simp only [PGSIZE] at h
  omega

namespace State

lemma entry_congr (h : va / PGSIZE = va' / PGSIZE) :
    s.entry pagetable va = s.entry pagetable va' := by
  have hle : MAXVA ≤ va ↔ MAXVA ≤ va' := by
    have := lt_MAXVA_congr h
    omega
  rw [entry, entry, walk, walk, walkFrom_congr h]
  simp only [hle]

lemma accessible_congr (h : va / PGSIZE = va' / PGSIZE) :
    s.Accessible pagetable va ↔ s.Accessible pagetable va' := by
  rw [Accessible, Accessible, lt_MAXVA_congr h, entry_congr h]

lemma accessible_add {j : ℕ} (hj : va % PGSIZE + j < PGSIZE) :
    s.Accessible pagetable (va + j) ↔ s.Accessible pagetable va := by
  apply accessible_congr
  simp only [PGSIZE] at *
  omega

/-- A byte of the same page. -/
lemma byteAt_add {j : ℕ} (hj : va % PGSIZE + j < PGSIZE) : s.byteAt pagetable (va + j)
    = (s.page (s.entry pagetable va / 1024)).byte (va % PGSIZE + j) := by
  have hpage : (va + j) / PGSIZE = va / PGSIZE ∧ (va + j) % PGSIZE = va % PGSIZE + j := by
    simp only [PGSIZE] at *
    omega
  rw [byteAt, place, entry_congr hpage.1, hpage.2, PTE2PA_eq, Nat.mul_div_cancel _ PGSIZE_pos]

lemma user_eq_some (h : s.Accessible pagetable va) :
    s.user pagetable va = some (s.byteAt pagetable va) := if_pos h

lemma isSome_user : (s.user pagetable va).isSome ↔ s.Accessible pagetable va := by
  rw [user]
  split
  · simpa
  · simpa

lemma Accessible.of_user {ch : UInt8} (h : s.user pagetable va = some ch) :
    s.Accessible pagetable va := by
  rw [← isSome_user, h]
  rfl

end State

/-- The physical address of a user page, or 0. -/
lemma wp_walkaddr_any {Q : ℕ → State → Prop} (hnone : ¬s.Accessible pagetable va → Q 0 s)
    (hsome : s.Accessible pagetable va → Q (PTE2PA (s.entry pagetable va)) s) :
    wp F (walkaddr pagetable va) Q s := by
  rw [walkaddr]
  apply wp_ite
  · intro hva
    exact hnone fun h => absurd h.1 (by omega)
  intro hva
  obtain ⟨r, hrun⟩ : ∃ r, (walk pagetable va false).run s = .ok (r, s) := walk_run (by omega)
  have hentry : s.entry pagetable va = r.elim 0 s.load := by
    rw [State.entry, hrun]
    cases r with
    | none => rfl
    | some a => rfl
  rw [wp_bind]
  apply wp_of_run hrun
  cases r with
  | none =>
    refine hnone fun h => h.2.1 ?_
    rw [hentry]
    exact Nat.zero_and _
  | some a =>
    simp only [load, wp_bind, wp_get, wp_pure]
    replace hentry : s.entry pagetable va = s.load a := hentry
    rw [← hentry]
    apply wp_ite
    · intro hbad
      exact hnone fun h => hbad.elim h.2.1 h.2.2.1
    · intro hgood
      push Not at hgood
      by_cases hpa : PTE2PA (s.entry pagetable va) = 0
      · rw [wp_pure, hpa]
        exact hnone fun h => h.2.2.2 hpa
      · exact hsome ⟨by omega, hgood.1, hgood.2, hpa⟩

/-! ### The page table of an address space -/

/-- The entries are those of the tree. -/
lemma Owned.entry_eq {p : ℕ} {Φ : ℕ → ℕ} (h : Owned sym s (tree 2 p Φ + R)) (hva : va < MAXVA) :
    s.entry (p * PGSIZE) va = Φ (va / PGSIZE) := by
  obtain ⟨r, hrun⟩ : ∃ r, (walk (p * PGSIZE) va false).run s = .ok (r, s) := walk_run hva
  have hwp : wp (fun _ => True) (walk (p * PGSIZE) va false)
      (fun r _ => r.elim 0 s.load = Φ (va / PGSIZE)) s := by
    apply wp_walk_addr h hva
    · intro s' hs' _
      exact (hs' rfl).2.symm
    · intro s' q c K hs' h' hole
      obtain rfl := hs' rfl
      rw [← hole.word]
      exact h'.load (Nat.mod_lt _ (by norm_num))
  rw [← hwp.returns hrun, State.entry, hrun]
  cases r with
  | none => rfl
  | some a => rfl

namespace Space

variable {A : Space sym}

lemma lt_MAXVA_of_lt_npages (A : Space sym) (h : va / PGSIZE < npages A.size) : va < MAXVA := by
  have hle := A.map.le
  rw [trapframePage_eq] at hle
  rw [MAXVA_eq]
  simp only [PGSIZE] at h
  omega

/-- The pages that the user may access, in terms of flags. -/
lemma accessible_iff (h : Owned sym s (A.pages + R)) :
    s.Accessible (A.root * PGSIZE) va ↔ va < MAXVA ∧
      s.entry (A.root * PGSIZE) va &&& PTE_V ≠ 0 ∧ s.entry (A.root * PGSIZE) va &&& PTE_U ≠ 0 := by
  constructor
  · exact fun ha => ⟨ha.1, ha.2.1, ha.2.2.1⟩
  rintro ⟨hva, hV, hU⟩
  refine ⟨hva, hV, hU, ?_⟩
  rw [A.pages_add] at h
  rw [h.entry_eq hva] at hU ⊢
  rw [PTE2PA_eq]
  exact Nat.mul_ne_zero (pos_of_mem_ram (h.user_mem_ram (A.map.lt_of_and_U hU))).ne' (by decide)

lemma accessible_iff_userPage (h : Owned sym s (A.pages + R)) :
    s.Accessible (A.root * PGSIZE) va ↔ UserPage A.entry (npages A.size) (va / PGSIZE) := by
  have htree := h
  rw [A.pages_add] at htree
  rw [accessible_iff h]
  constructor
  · rintro ⟨hva, -, hU⟩
    rw [htree.entry_eq hva] at hU
    exact ⟨A.map.lt_of_and_U hU, hU⟩
  · rintro ⟨hlt, hU⟩
    have hva := A.lt_MAXVA_of_lt_npages hlt
    rw [htree.entry_eq hva]
    exact ⟨hva, (A.map.user _ hlt).1, hU⟩

lemma place_eq (h : Owned sym s (A.pages + R)) (hva : va < MAXVA) :
    s.place (A.root * PGSIZE) va = (A.entry (va / PGSIZE) / 1024, va % PGSIZE) := by
  rw [A.pages_add] at h
  rw [State.place, h.entry_eq hva, PTE2PA_eq, Nat.mul_div_cancel _ PGSIZE_pos]

/-- The user sees the memory of the address space. -/
lemma user_eq (h : Owned sym s (A.pages + R)) :
    s.user (A.root * PGSIZE) va = if UserPage A.entry (npages A.size) (va / PGSIZE)
      then some ((A.mem (va / PGSIZE)).byte (va % PGSIZE)) else none := by
  rw [State.user]
  apply ite_congr (propext (accessible_iff_userPage h))
  · rintro ⟨hlt, -⟩
    rw [State.byteAt, place_eq h (A.lt_MAXVA_of_lt_npages hlt)]
    rw [A.pages_add, umem_erase hlt] at h
    have hpage := (h.perm (by abel : _ = pts (A.entry (va / PGSIZE) / 1024) (A.mem (va / PGSIZE))
      + (tree 2 A.root A.entry + (∑ u ∈ (Finset.range (npages A.size)).erase (va / PGSIZE),
        pts (A.entry u / 1024) (A.mem u) + (own A.trapframe + R))))).read
    rw [hpage]
  · exact fun _ => rfl

end Space

end Xv6.Vm
