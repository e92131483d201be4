import Xv6.Vm.Copy
import Xv6.Vm.Flat

/-!
# The memory of processes

The parts of `fork`, `freeproc` and `sbrk` in `kernel/proc.c` and `kernel/sysproc.c` that deal with
user memory. A `Space` is an address space with its invariant; the assertion `Space.pages` says that
the memory holds it, and several processes in one memory are a sum of such assertions.
-/

namespace Xv6.Vm

open Core Coroutine Assn
open scoped Pointwise

/-! ### The calls -/

section Calls

variable (sym : Symbols)

/-- What `freeproc` does to memory. -/
def freeproc (trapframe pagetable sz : ℕ) : VmM PUnit := do
  if trapframe ≠ 0 then
    kfree sym trapframe
  if pagetable ≠ 0 then
    procFreepagetable sym pagetable sz

/-- What `allocproc` does to memory: the trapframe and the page table of a new process. -/
def allocproc : VmM (Option (ℕ × ℕ)) := do
  let trapframe ← kalloc
  if trapframe = 0 then
    freeproc sym 0 0 0
    return none
  else
    let pagetable ← procPagetable sym trapframe
    if pagetable = 0 then
      freeproc sym trapframe 0 0
      return none
    else
      return some (trapframe, pagetable)

/-- The sum of a `uint` and an `int`. -/
def addInt (sz : ℕ) (n : Int32) : ℕ := ((sz + n.toInt) % 2 ^ 32).toNat

/-- `growproc(n)`: the new `p->sz`, or `none` for -1. -/
def growproc (pagetable sz maxMem : ℕ) (n : Int32) : VmM (Option ℕ) := do
  let sz := sz % 2 ^ 32
  if 0 < n then
    let newSz := addInt sz n
    if maxMem < newSz then
      return none
    else
      let sz := (← uvmalloc sym pagetable sz newSz) % 2 ^ 32
      return if sz = 0 then none else some sz
  else if n < 0 then
    let sz := (← uvmdealloc sym pagetable sz (addInt sz n)) % 2 ^ 32
    return some sz
  else
    return some sz

/-- `sys_sbrk`: the value returned, and `p->sz` after the call. -/
def sysSbrk (pagetable sz maxMem : ℕ) (n : Int32) : VmM (ℤ × ℕ) := do
  let addr := toInt32 (sz % 2 ^ 32)
  match ← growproc sym pagetable sz maxMem n with
  | none => return (-1, sz)
  | some sz' => return (addr, sz')

/-- Copies to user memory, one after the other; some of them may fail. -/
def copyouts (pagetable : ℕ) : List (ℕ × List UInt8) → VmM PUnit
  | [] => return ⟨⟩
  | (va, src) :: calls => do
    let _ ← copyout pagetable va src
    copyouts pagetable calls

end Calls

/-! ### Address spaces -/

/-- The address space of a process: the pages of its page table and of its trapframe, its size in
bytes, the entries of its page table and the contents of the user pages. All pages up to the size
are mapped, and besides them only the trampoline and the trapframe. -/
structure Space (sym : Symbols) where
  root : ℕ
  trapframe : ℕ
  size : ℕ
  entry : ℕ → ℕ
  mem : ℕ → Page
  map : UserMap sym (trapframe * PGSIZE) (npages size) entry

variable {sym : Symbols} {s : State} {R : Assn ℕ Page} {F : Panic → Prop}

namespace Space

/-- The memory holds the address space. -/
def pages (A : Space sym) : Assn ℕ Page :=
  tree 2 A.root A.entry + (umem A.entry A.mem (npages A.size) + own A.trapframe)

/-- The address space with other contents. -/
def withMem (A : Space sym) (M : ℕ → Page) : Space sym := { A with mem := M }

variable {A : Space sym}

lemma size_le (h : Owned sym s (A.pages + R)) : A.size ≤ 134217728 := by
  have h' := h.perm (by rw [pages]; abel : _ = umem A.entry A.mem (npages A.size)
    + (tree 2 A.root A.entry + (own A.trapframe + R)))
  exact h'.sz_le rfl

/-- The table and the user memory, with the rest in the frame. -/
lemma pages_add (A : Space sym) (R : Assn ℕ Page) : A.pages + R = tree 2 A.root A.entry
    + (umem A.entry A.mem (npages A.size) + (own A.trapframe + R)) := by
  rw [pages]
  abel

lemma root_mem_ram (A : Space sym) (h : Owned sym s (A.pages + R)) : A.root ∈ ram sym := by
  rw [A.pages_add] at h
  obtain ⟨c, hc⟩ := h.exists_left
  rw [add_assoc] at hc
  exact (hc.mono_left (pts_subset_own _ _)).mem

end Space

/-! ### Memory that is given back exactly -/

/-- The free list from `head` on, by its pages. -/
inductive Linked (s : State) : ℕ → List ℕ → Prop
  | nil : Linked s 0 []
  | cons {q : ℕ} {l : List ℕ} : Linked s ((s.page q).word 0) l → Linked s (q * PGSIZE) (q :: l)

/-- The same pages are free, and all others have the same contents. -/
def Unchanged (sym : Symbols) (s s' : State) : Prop :=
  ∃ l l', Linked s s.freelist l ∧ Linked s' s'.freelist l' ∧ l'.Perm l ∧
    ∀ q ∈ ram sym, q ∉ l → s'.page q = s.page q

lemma linked_of_holds {head : ℕ} {l : List ℕ}
    (h : Holds (ram sym) s.page (chain head l + R)) : Linked s head l := by
  induction l generalizing head R with
  | nil =>
    obtain ⟨x, ⟨rfl, -⟩, -⟩ := h
    exact .nil
  | cons q l ih =>
    obtain ⟨c, y, ⟨rfl, hy⟩, z, hz, heq⟩ := h.exists_left
    have hholds : Holds (ram sym) s.page (pts q c + (chain (c.word 0) l + R)) := by
      rw [← add_assoc]
      exact ⟨y, hy, z, hz, heq⟩
    refine .cons (ih (R := pts q c + R) ?_)
    rw [hholds.read]
    exact hholds.perm (add_left_comm _ _ _)

lemma covers_chain (head : ℕ) (l : List ℕ) : Covers (chain head l) l := by
  induction l generalizing head with
  | nil =>
    rintro x ⟨-, rfl⟩
    rfl
  | cons q l ih =>
    rintro x ⟨c, -, hx⟩
    exact ((Covers.pts q c).add (ih _)) x hx

/-- Besides the free list there is one definite part of the memory. -/
lemma Owned.exists_mem (h : Owned sym s R) : ∃ x ∈ R, Owned sym s {x} := by
  obtain ⟨l, y, hy, x, hx, heq⟩ := h
  exact ⟨x, hx, l, y, hy, x, rfl, heq⟩

lemma Owned.unchanged {s' : State} {x : Multiset (ℕ × Page)} (h : Owned sym s {x})
    (h' : Owned sym s' {x}) : Unchanged sym s s' := by
  obtain ⟨l, hl⟩ := h
  obtain ⟨l', hl'⟩ := h'
  have hlink := linked_of_holds hl
  have hlink' := linked_of_holds hl'
  obtain ⟨y, hy, z, hz, heq⟩ := hl
  obtain ⟨y', hy', z', hz', heq'⟩ := hl'
  change y + z = _ at heq
  change y' + z' = _ at heq'
  rw [Set.mem_singleton_iff.mp hz] at heq
  rw [Set.mem_singleton_iff.mp hz'] at heq'
  refine ⟨l, l', hlink, hlink', ?_, ?_⟩
  · have hplaces : ∀ m : ℕ → Page, (cells (ram sym) m).map Prod.fst = (ram sym).val := by
      intro m
      rw [cells, Multiset.map_map]
      simp
    have hsum : (y + x).map Prod.fst = (y' + x).map Prod.fst := by
      rw [heq, heq', hplaces, hplaces]
    rw [Multiset.map_add, Multiset.map_add, covers_chain _ _ y hy, covers_chain _ _ y' hy'] at hsum
    exact (Multiset.coe_eq_coe.mp (add_right_cancel hsum)).symm
  · intro q hq hql
    have hmem : (q, s.page q) ∈ y + x := heq ▸ mem_cells.mpr ⟨hq, rfl⟩
    rcases Multiset.mem_add.mp hmem with hy₁ | hx
    · refine absurd ?_ hql
      have hplace : q ∈ y.map Prod.fst := Multiset.mem_map_of_mem Prod.fst hy₁
      rwa [covers_chain _ _ y hy, Multiset.mem_coe] at hplace
    · have hmem' : (q, s.page q) ∈ y' + x := Multiset.mem_add.mpr (.inr hx)
      rw [heq'] at hmem'
      exact (mem_cells.mp hmem').2

/-! ### Freeing a process -/

variable {A : Space sym}

/-- `freeproc` does not panic, and gives back everything that the process had. -/
lemma wp_freeproc {Q : PUnit → State → Prop} (h : Owned sym s (A.pages + R))
    (hQ : ∀ s', Owned sym s' R → Q ⟨⟩ s') :
    wp F (freeproc sym (A.trapframe * PGSIZE) (A.root * PGSIZE) A.size) Q s := by
  have hroot := A.root_mem_ram h
  have h' := h.perm (by rw [Space.pages]; abel : _ = own A.trapframe + (tree 2 A.root A.entry
    + (umem A.entry A.mem (npages A.size) + R)))
  have htf : A.trapframe * PGSIZE ≠ 0 :=
    Nat.mul_ne_zero (pos_of_mem_ram h'.mem).ne' (by decide)
  have hpt : A.root * PGSIZE ≠ 0 := Nat.mul_ne_zero (pos_of_mem_ram hroot).ne' (by decide)
  rw [freeproc, if_pos htf, wp_bind]
  apply wp_kfree h'
  intro s₁ h₁
  rw [if_pos hpt]
  exact wp_procFreepagetable A.map rfl h₁ hQ

/-- `allocproc` makes an address space without user memory, or leaves no trace. -/
lemma wp_allocproc {Q : Option (ℕ × ℕ) → State → Prop} (h : Owned sym s R)
    (hfail : ∀ s', Owned sym s' R → Q none s')
    (hok : ∀ s' (A : Space sym), A.size = 0 → Owned sym s' (A.pages + R) →
      Q (some (A.trapframe * PGSIZE, A.root * PGSIZE)) s') :
    wp F (allocproc sym) Q s := by
  rw [allocproc, wp_bind]
  apply wp_kalloc h
  · intro s₁ h₁
    exact hfail s₁ h₁
  intro tf s₁ htf h₁
  have hne : tf * PGSIZE ≠ 0 := Nat.mul_ne_zero (pos_of_mem_ram htf).ne' (by decide)
  rw [if_neg hne, wp_bind]
  apply wp_procPagetable (Dvd.intro_left _ rfl) (lt_PHYSTOP_of_mem_ram htf) h₁
  · intro s₂ h₂
    rw [if_pos rfl, freeproc, if_pos hne]
    simp only [wp_bind]
    apply wp_kfree h₂
    exact hfail
  · intro p s₂ Φ hp hΦ h₂
    rw [if_neg (Nat.mul_ne_zero (pos_of_mem_ram hp).ne' (by decide))]
    have hzero : npages 0 = 0 := by decide
    refine hok s₂ ⟨p, tf, 0, Φ, fun _ => .fill 0, by rwa [hzero]⟩ rfl ?_
    rw [Space.pages_add]
    dsimp only
    rwa [hzero, umem_zero, zero_add]

/-! ### A small machine -/

/-- A machine with sixteen pages of memory. -/
def small : Symbols where
  kend := PHYSTOP - 16 * PGSIZE
  trampoline := KERNBASE
  le_kend := by decide
  kend_le := by decide
  dvd_trampoline := tiny.dvd_trampoline
  trampoline_lt := tiny.trampoline_lt

/-- Memory before the kernel starts, with a pattern of allocation failures. -/
def blank (deny : List Bool) : State := ⟨fun _ => .fill 0, 0, deny⟩

/-- Start the allocator and make a process with `sz` bytes of memory. -/
def firstProcess (sym : Symbols) (sz : ℕ) : VmM (ℕ × ℕ) := do
  kinit sym
  match ← allocproc sym with
  | none => panic .null
  | some (trapframe, pagetable) =>
    let sz' ← uvmalloc sym pagetable 0 sz
    if sz' ≠ sz then
      panic .null
    else
      return (trapframe, pagetable)

variable {sz : ℕ} {n : Int32}

lemma wp_firstProcess {deny : List Bool} (hsz : sz ≠ 0) :
    wp (fun _ => True) (firstProcess sym sz) (fun r s' => ∃ A : Space sym,
      r = (A.trapframe * PGSIZE, A.root * PGSIZE) ∧ A.size = sz ∧ Owned sym s' (A.pages + 0))
      (blank deny) := by
  rw [firstProcess, wp_bind]
  apply wp_kinit rfl
  intro s₁ h₁
  rw [wp_bind]
  apply wp_allocproc h₁
  · exact fun _ _ => trivial
  intro s₂ B hB h₂
  dsimp only
  rw [wp_bind]
  rw [B.pages_add] at h₂
  refine wp_uvmalloc B.map (by rw [hB]) h₂ ?_ ?_ ?_
  · intro hlt
    omega
  · intro s₃ _ _
    rw [if_pos hsz.symm]
    trivial
  · intro s₃ Ψ hle hg h₃
    rw [if_neg (not_not.mpr rfl)]
    have hmax : npages sz ≤ 32768 := (h₃.perm (add_left_comm _ _ _)).npages_le
    have hmap := hg.userMap B.map (npages_mono (by omega)) (by rw [trapframePage_eq]; omega)
    refine ⟨⟨B.root, B.trapframe, sz, Ψ, extend B.mem (npages B.size), hmap⟩, rfl, rfl, ?_⟩
    rw [Space.pages_add]
    simpa [held] using h₃

/-- A process, and another one that has no memory yet. -/
def twoProcesses (sym : Symbols) (sz : ℕ) : VmM (ℕ × ℕ) := do
  let (_, pagetable) ← firstProcess sym sz
  match ← allocproc sym with
  | none => panic .null
  | some (_, pagetable') => return (pagetable, pagetable')

lemma wp_twoProcesses {deny : List Bool} (hsz : sz ≠ 0) :
    wp (fun _ => True) (twoProcesses sym sz) (fun r s' => ∃ A B : Space sym,
      r = (A.root * PGSIZE, B.root * PGSIZE) ∧ A.size = sz ∧ B.size = 0 ∧
        Owned sym s' (A.pages + (B.pages + 0))) (blank deny) := by
  rw [twoProcesses, wp_bind]
  refine (wp_firstProcess hsz).mono ?_
  rintro _ s₁ ⟨A, rfl, hsize, h₁⟩
  dsimp only
  rw [wp_bind]
  apply wp_allocproc h₁
  · exact fun _ _ => trivial
  · intro s₂ B hB h₂
    exact ⟨A, B, rfl, hsize, hB, h₂.perm (add_left_comm _ _ _)⟩

/-! ### sbrk -/

/-- `sys_sbrk` did what it returned: it changed the size by `n`, keeping the pages that are in both
sizes and adding cleared pages, or it failed and changed nothing. -/
def SbrkHonest (A : Space sym) (R : Assn ℕ Page) (n : Int32) (r : ℤ) (sz : ℕ) (s : State) : Prop :=
  (r = A.size ∧ (sz : ℤ) = A.size + n.toInt ∧ ∃ B : Space sym, B.root = A.root ∧
      B.trapframe = A.trapframe ∧ B.size = sz ∧ Owned sym s (B.pages + R) ∧
      (∀ v < npages A.size, v < npages sz → B.entry v = A.entry v ∧ B.mem v = A.mem v) ∧
      ∀ v < npages sz, npages A.size ≤ v → B.mem v = .fill 0) ∨
    (r = -1 ∧ sz = A.size ∧ Owned sym s (A.pages + R))

lemma addInt_eq (hsz : sz < 2 ^ 31) (hn : -(sz : ℤ) ≤ n.toInt) :
    (addInt sz n : ℤ) = sz + n.toInt := by
  have hlt := n.toInt_lt
  rw [addInt, Int.toNat_of_nonneg (Int.emod_nonneg _ (by norm_num)), Int.emod_eq_of_lt] <;> omega

/-- A request to shrink below zero wraps to a size beyond the old one. -/
lemma lt_addInt (hsz : sz < 2 ^ 31) (hn : n.toInt < -(sz : ℤ)) : sz < addInt sz n := by
  have hle := n.le_toInt
  have hmod : ((sz : ℤ) + n.toInt) % 2 ^ 32 = sz + n.toInt + 2 ^ 32 := by
    rw [← Int.add_emod_right, Int.emod_eq_of_lt] <;> omega
  rw [addInt, hmod]
  omega

lemma toInt32_size (h : Owned sym s (A.pages + R)) : toInt32 (A.size % 2 ^ 32) = A.size := by
  have hle := A.size_le h
  rw [Nat.mod_eq_of_lt (by omega), toInt32_of_lt (by omega)]

/-- Growing by a positive number of bytes is reported truthfully. -/
lemma wp_sysSbrk_pos {maxMem : ℕ} (h : Owned sym s (A.pages + R))
    (hn : 0 < n) : wp F (sysSbrk sym (A.root * PGSIZE) A.size maxMem n)
      (fun r s' => SbrkHonest A R n r.1 r.2 s') s := by
  have hsize := A.size_le h
  have hpos : 0 < n.toInt := Int32.lt_iff_toInt_lt.mp hn
  have hadd : (addInt A.size n : ℤ) = A.size + n.toInt := addInt_eq (by omega) (by omega)
  have hn' := n.toInt_lt
  rw [sysSbrk, wp_bind, growproc]
  dsimp only
  rw [if_pos hn, toInt32_size h, Nat.mod_eq_of_lt (show A.size < 2 ^ 32 by omega)]
  generalize addInt A.size n = newSz at hadd ⊢
  apply wp_ite
  · intro _
    exact .inr ⟨rfl, rfl, h⟩
  intro _
  rw [wp_bind]
  rw [A.pages_add] at h
  refine wp_uvmalloc A.map rfl h ?_ ?_ ?_
  · intro hlt
    omega
  · intro s₁ _ h₁
    refine .inr ⟨rfl, rfl, ?_⟩
    rwa [A.pages_add]
  · intro s₁ Ψ hle hg h₁
    have hmod : newSz % 2 ^ 32 = newSz := Nat.mod_eq_of_lt (by omega)
    rw [hmod, if_neg (by omega)]
    have hmax : npages newSz ≤ 32768 := (h₁.perm (add_left_comm _ _ _)).npages_le
    have hmap := hg.userMap A.map (npages_mono hle) (by rw [trapframePage_eq]; omega)
    refine .inl ⟨rfl, hadd, ⟨A.root, A.trapframe, newSz, Ψ, extend A.mem (npages A.size), hmap⟩,
      rfl, rfl, rfl, ?_, ?_, ?_⟩
    · rw [Space.pages_add]
      exact h₁
    · intro v hv _
      exact ⟨hg.out v (by omega), extend_of_lt hv⟩
    · intro v _ hv
      exact extend_of_le hv

/-- A request to shrink is reported truthfully exactly when it is not for more than there is. -/
lemma wp_sysSbrk_neg {maxMem : ℕ} (h : Owned sym s (A.pages + R))
    (hn : n < 0) : wp F (sysSbrk sym (A.root * PGSIZE) A.size maxMem n)
      (fun r s' => SbrkHonest A R n r.1 r.2 s' ↔ -(A.size : ℤ) ≤ n.toInt) s := by
  have hsize := A.size_le h
  have hneg : n.toInt < 0 := Int32.lt_iff_toInt_lt.mp hn
  have hpos : ¬0 < n := Int32.not_lt.mpr (Int32.le_of_lt hn)
  rw [sysSbrk, wp_bind, growproc]
  dsimp only
  rw [if_neg hpos, if_pos hn, toInt32_size h, Nat.mod_eq_of_lt (show A.size < 2 ^ 32 by omega),
    wp_bind]
  rw [A.pages_add] at h
  apply wp_uvmdealloc_user A.map rfl h
  intro s₁ Ψ hmap hsame h₁
  by_cases hfit : -(A.size : ℤ) ≤ n.toInt
  · have hadd := addInt_eq (show A.size < 2 ^ 31 by omega) hfit
    have hmin : min A.size (addInt A.size n) = addInt A.size n := by omega
    rw [hmin] at hmap hsame h₁ ⊢
    generalize addInt A.size n = newSz at *
    rw [Nat.mod_eq_of_lt (show newSz < 2 ^ 32 by omega)]
    have hle : npages newSz ≤ npages A.size := npages_mono (by omega)
    refine iff_of_true (.inl ⟨rfl, hadd, ⟨A.root, A.trapframe, newSz, Ψ, A.mem, hmap⟩, rfl, rfl,
      rfl, ?_, ?_, ?_⟩) hfit
    · rw [Space.pages_add]
      exact h₁
    · intro v _ hv
      exact ⟨hsame v hv, rfl⟩
    · intro v hv hv'
      exact absurd (hle.trans hv') (Nat.not_le.mpr hv)
  · have hlt := lt_addInt (show A.size < 2 ^ 31 by omega) (show n.toInt < -(A.size : ℤ) by omega)
    have hmin : min A.size (addInt A.size n) = A.size := by omega
    rw [hmin, Nat.mod_eq_of_lt (show A.size < 2 ^ 32 by omega)]
    refine iff_of_false ?_ hfit
    rintro (⟨-, hsz, -⟩ | ⟨hr, -⟩)
    · dsimp only at hsz
      omega
    · dsimp only at hr
      omega

/-- For every address space, `int` and pattern of allocation failures, `sys_sbrk` returns, and what
it reports is what it did exactly when it is not asked to shrink the memory by more than its size.
-/
theorem sysSbrk_honest_iff (A : Space sym) (h : Owned sym s (A.pages + R)) (maxMem : ℕ)
    (n : Int32) :
    ∃ r sz s', (sysSbrk sym (A.root * PGSIZE) A.size maxMem n).run s = .ok ((r, sz), s') ∧
      (SbrkHonest A R n r sz s' ↔ -(A.size : ℤ) ≤ n.toInt) := by
  obtain ⟨⟨r, sz⟩, s', hrun, hpost⟩ : ∃ r s', (sysSbrk sym (A.root * PGSIZE) A.size maxMem n).run s
      = .ok (r, s') ∧ (SbrkHonest A R n r.1 r.2 s' ↔ -(A.size : ℤ) ≤ n.toInt) := by
    apply Coroutine.wp.exists_run
    rcases Std.lt_trichotomy n 0 with hn | rfl | hn
    · exact wp_sysSbrk_neg h hn
    · have hsize := A.size_le h
      rw [sysSbrk, wp_bind, growproc]
      dsimp only
      rw [if_neg (by decide), if_neg (by decide), toInt32_size h,
        Nat.mod_eq_of_lt (show A.size < 2 ^ 32 by omega)]
      refine iff_of_true (.inl ⟨rfl, by simp, A, rfl, rfl, rfl, h, fun _ _ _ => ⟨rfl, rfl⟩, ?_⟩)
        (by simp)
      intro v hv hv'
      exact absurd hv (Nat.not_lt.mpr hv')
    · have hpos : 0 < n.toInt := Int32.lt_iff_toInt_lt.mp hn
      exact (wp_sysSbrk_pos h hn).mono fun r s' hr => iff_of_true hr (by omega)
  exact ⟨r, sz, s', hrun, hpost⟩

/-- A process with one page and a byte gives the byte back, and with it a page. -/
theorem sysSbrk_honest_shrink : ∃ (s : State) (A : Space small), Owned small s (A.pages + 0) ∧
    A.size = 4097 ∧
    ∃ r sz s', (sysSbrk small (A.root * PGSIZE) A.size 131072 (-1)).run s = .ok ((r, sz), s') ∧
      SbrkHonest A 0 (-1) r sz s' := by
  have hboot := run_eq_after (c := firstProcess small 4097) (s := blank [])
    (a := (557055 * PGSIZE, 557054 * PGSIZE)) (by decide +kernel)
  obtain ⟨A, -, hsize, h⟩ := (wp_firstProcess (by decide)).returns hboot
  obtain ⟨r, sz, s', hrun, hiff⟩ := sysSbrk_honest_iff A h 131072 (-1)
  refine ⟨_, A, h, hsize, r, sz, s', hrun, hiff.mpr ?_⟩
  rw [hsize]
  decide

/-- A process of one page asks to shrink by one byte more: the call reports success and changes
nothing. -/
theorem sysSbrk_reports_wrapped_shrink : ∃ (s : State) (A : Space small),
    Owned small s (A.pages + 0) ∧ A.size = 4096 ∧
    ((sysSbrk small (A.root * PGSIZE) A.size 131072 (-4097)).run s).toOption.map Prod.fst
      = some (4096, 4096) := by
  have hboot := run_eq_after (c := firstProcess small 4096) (s := blank [])
    (a := (557055 * PGSIZE, 557054 * PGSIZE)) (by decide +kernel)
  obtain ⟨A, hr, hsize, h⟩ := (wp_firstProcess (by decide)).returns hboot
  refine ⟨_, A, h, hsize, ?_⟩
  rw [← (Prod.mk.inj hr).2, hsize]
  decide +kernel

/-! ### fork -/

/-- Copies to a process change its own contents only. -/
lemma wp_copyouts {calls : List (ℕ × List UInt8)} (h : Owned sym s (A.pages + R)) :
    wp F (copyouts (A.root * PGSIZE) calls)
      (fun _ s' => ∃ M, Owned sym s' ((A.withMem M).pages + R)) s := by
  induction calls generalizing s A with
  | nil => exact ⟨A.mem, h⟩
  | cons call calls ih =>
    obtain ⟨va, src⟩ := call
    rw [copyouts, wp_bind]
    rw [A.pages_add] at h
    have hnext : ∀ M s', Owned sym s' (tree 2 A.root A.entry
        + (umem A.entry M (npages A.size) + (own A.trapframe + R))) →
        wp F (copyouts (A.root * PGSIZE) calls)
          (fun _ s' => ∃ M, Owned sym s' ((A.withMem M).pages + R)) s' := by
      intro M s' h'
      refine ih (A := A.withMem M) ?_
      rw [Space.pages_add]
      exact h'
    apply wp_copyout A.map h
    · exact fun s' k _ h' => hnext _ s' h'
    · exact fun s' _ h' => hnext _ s' h'

/-- Different address spaces in one memory do not share pages. -/
lemma Space.page_ne {B : Space sym} (h : Owned sym s (A.pages + (B.pages + R))) {u v : ℕ}
    (hu : u < npages A.size) (hv : v < npages B.size) : A.entry u / 1024 ≠ B.entry v / 1024 := by
  obtain ⟨l, hl⟩ := h
  rw [Space.pages, Space.pages, umem_erase hu, umem_erase hv] at hl
  have hl' := hl.perm (by abel : _ = pts (A.entry u / 1024) (A.mem u)
    + (pts (B.entry v / 1024) (B.mem v) + (chain s.freelist l
      + (∑ w ∈ (Finset.range (npages A.size)).erase u, pts (A.entry w / 1024) (A.mem w)
      + (∑ w ∈ (Finset.range (npages B.size)).erase v, pts (B.entry w / 1024) (B.mem w)
      + (tree 2 A.root A.entry + (own A.trapframe + (tree 2 B.root B.entry
      + (own B.trapframe + R)))))))))
  have hown := (hl'.mono_left (pts_subset_own _ _)).perm (add_left_comm _ _ _)
  exact ((hown.mono_left (pts_subset_own _ _)).perm (add_left_comm _ _ _)).ne

/-- `C` is a deep copy of `A` in the place of `B`: other pages with the same flags and bytes. -/
structure DeepCopy (A B C : Space sym) : Prop where
  root : C.root = B.root
  trapframe : C.trapframe = B.trapframe
  size : C.size = A.size
  fresh : ∀ u < npages A.size, ∀ v < npages A.size, C.entry u / 1024 ≠ A.entry v / 1024
  flags : ∀ v < npages A.size, PTE_FLAGS (C.entry v) = PTE_FLAGS (A.entry v)
  mem : ∀ v < npages A.size, C.mem v = A.mem v

/-- `uvmcopy` makes a deep copy of the parent's address space, and copies to one of the two
processes then leave the other alone; or it fails, and then the parent and the child, which has no
user memory, are as before and the child can be freed. -/
theorem uvmcopy_deep_or_nothing (A B : Space sym) (hB : B.size = 0)
    (h : Owned sym s (A.pages + (B.pages + R))) :
    ∃ r s', (uvmcopy sym (A.root * PGSIZE) (B.root * PGSIZE) A.size).run s = .ok (r, s') ∧
      (r = true → ∃ C, DeepCopy A B C ∧ Owned sym s' (A.pages + (C.pages + R)) ∧
        (∀ calls, ∃ M s'', (copyouts (C.root * PGSIZE) calls).run s' = .ok (⟨⟩, s'') ∧
          Owned sym s'' (A.pages + ((C.withMem M).pages + R))) ∧
        ∀ calls, ∃ M s'', (copyouts (A.root * PGSIZE) calls).run s' = .ok (⟨⟩, s'') ∧
          Owned sym s'' ((A.withMem M).pages + (C.pages + R))) ∧
      (r = false → Owned sym s' (A.pages + (B.pages + R)) ∧
        ∃ s'', (freeproc sym (B.trapframe * PGSIZE) (B.root * PGSIZE) 0).run s' = .ok (⟨⟩, s'') ∧
          Owned sym s'' (A.pages + R)) := by
  have hn : npages B.size = 0 := by
    rw [hB]
    rfl
  have hmap := B.map
  rw [hn] at hmap
  have hB' : ∀ s', Owned sym s' (A.pages + (B.pages + R)) ↔ Owned sym s' (tree 2 A.root A.entry
      + (umem A.entry A.mem (npages A.size) + (tree 2 B.root B.entry
        + (own A.trapframe + (own B.trapframe + R))))) := by
    intro s'
    rw [Space.pages, Space.pages, hn, umem_zero, zero_add]
    constructor
    · exact fun h => h.perm (by abel)
    · exact fun h => h.perm (by abel)
  apply Coroutine.wp.exists_run
  refine wp_uvmcopy A.map hmap rfl ((hB' s).mp h) ?_ ?_
  · intro s' h'
    refine ⟨by simp, fun _ => ⟨(hB' s').mpr h', ?_⟩⟩
    have hfree : wp (fun _ => False) (freeproc sym (B.trapframe * PGSIZE) (B.root * PGSIZE) B.size)
        (fun _ s'' => Owned sym s'' (A.pages + R)) s' :=
      wp_freeproc (((hB' s').mpr h').perm (add_left_comm _ _ _)) fun s'' h'' => h''
    rw [hB] at hfree
    obtain ⟨⟨⟩, s'', hrun, h''⟩ := hfree.exists_run
    exact ⟨s'', hrun, h''⟩
  · intro s' Ψ hc h'
    refine ⟨fun _ => ?_, by simp⟩
    let C : Space sym := ⟨B.root, B.trapframe, A.size, Ψ, A.mem, hc.userMap A.map hmap⟩
    have hC : Owned sym s' (A.pages + (C.pages + R)) := by
      refine h'.perm ?_
      rw [Space.pages, Space.pages]
      abel
    refine ⟨C, ⟨rfl, rfl, rfl, ?_, hc.flags, fun _ _ => rfl⟩, hC, ?_, ?_⟩
    · intro u hu v hv
      exact (Space.page_ne hC hv hu).symm
    · intro calls
      have hwp : wp (fun _ => False) (copyouts (C.root * PGSIZE) calls) _ s' :=
        wp_copyouts (hC.perm (add_left_comm _ _ _))
      obtain ⟨⟨⟩, s'', hrun, M, h''⟩ := hwp.exists_run
      exact ⟨M, s'', hrun, h''.perm (add_left_comm _ _ _)⟩
    · intro calls
      have hwp : wp (fun _ => False) (copyouts (A.root * PGSIZE) calls) _ s' := wp_copyouts hC
      obtain ⟨⟨⟩, s'', hrun, M, h''⟩ := hwp.exists_run
      exact ⟨M, s'', hrun, h''⟩

/-- A process of one page is copied. -/
theorem uvmcopy_deep_small : ∃ (s : State) (A B : Space small),
    Owned small s (A.pages + (B.pages + 0)) ∧ A.size = 4096 ∧ B.size = 0 ∧
    ∃ C s', (uvmcopy small (A.root * PGSIZE) (B.root * PGSIZE) A.size).run s = .ok (true, s') ∧
      DeepCopy A B C := by
  have hboot := run_eq_after (c := twoProcesses small 4096) (s := blank [])
    (a := (557054 * PGSIZE, 557047 * PGSIZE)) (by decide +kernel)
  obtain ⟨A, B, hr, hsize, hB, h⟩ := (wp_twoProcesses (by decide)).returns hboot
  obtain ⟨hA', hB'⟩ := Prod.mk.inj hr
  obtain ⟨r, s', hrun, hok, -⟩ := uvmcopy_deep_or_nothing A B hB h
  have hr' : ((uvmcopy small (557054 * PGSIZE) (557047 * PGSIZE) 4096).run
      (after (twoProcesses small 4096) (blank []))).toOption.map Prod.fst = some true := by
    decide +kernel
  have hrun' := hrun
  rw [← hA', ← hB', hsize] at hrun'
  rw [hrun'] at hr'
  obtain rfl : r = true := by simpa [Except.toOption] using hr'
  obtain ⟨C, hC, -⟩ := hok rfl
  exact ⟨_, A, B, h, hsize, hB, C, s', hrun, hC⟩

end Xv6.Vm
