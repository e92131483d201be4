import Xv6.Basic
import Xv6.Core.Coroutine

/-!
# Physical pages and page tables

The page allocator of `kernel/kalloc.c` and the page tables of `kernel/vm.c`, on a physical memory
of pages of bytes. Page-table entries and the links of the free list are `uint64`s in these pages.
Addresses are natural numbers below `2 ^ 64`, and the null pointer is 0.
-/

namespace Xv6.Vm

open Core

/-! ### Addresses -/

/-- One beyond the highest virtual address that is used. -/
def MAXVA : ℕ := 2 ^ 38

def TRAMPOLINE : ℕ := MAXVA - PGSIZE

def TRAPFRAME : ℕ := TRAMPOLINE - PGSIZE

def KERNBASE : ℕ := 0x80000000

def PHYSTOP : ℕ := KERNBASE + 128 * 1024 * 1024

lemma KERNBASE_eq : KERNBASE = 2147483648 := rfl

lemma PHYSTOP_eq : PHYSTOP = 2281701376 := rfl

lemma MAXVA_eq : MAXVA = 274877906944 := rfl

def PGROUNDUP (sz : ℕ) : ℕ := (sz + PGSIZE - 1) % 2 ^ 64 / PGSIZE * PGSIZE

def PGROUNDDOWN (a : ℕ) : ℕ := a / PGSIZE * PGSIZE

/-- The 9 bits of a virtual address that are the index at a level. -/
def PX (level va : ℕ) : ℕ := va >>> (12 + 9 * level) % 512

def PTE_V : ℕ := 1
def PTE_R : ℕ := 2
def PTE_W : ℕ := 4
def PTE_X : ℕ := 8
def PTE_U : ℕ := 16

def PA2PTE (pa : ℕ) : ℕ := pa >>> 12 <<< 10

def PTE2PA (pte : ℕ) : ℕ := pte >>> 10 <<< 12

def PTE_FLAGS (pte : ℕ) : ℕ := pte % 1024

/-- The addresses that the linker gives to the end of the kernel and to the page of trampoline
code. -/
structure Symbols where
  kend : ℕ
  trampoline : ℕ
  le_kend : KERNBASE ≤ kend
  kend_le : kend ≤ PHYSTOP
  dvd_trampoline : PGSIZE ∣ trampoline
  trampoline_lt : trampoline < PHYSTOP

/-! ### Pages -/

/-- The number that `n` bytes are, in little-endian order. -/
def leWord : ℕ → (ℕ → UInt8) → ℕ
  | 0, _ => 0
  | n + 1, f => (f 0).toNat + 256 * leWord n fun k => f (k + 1)

/-- The contents of a page. -/
abbrev Page := Fin PGSIZE → UInt8

namespace Page

/-- What `memset` makes of a page. -/
def fill (b : UInt8) : Page := fun _ => b

def byte (c : Page) (i : ℕ) : UInt8 := if h : i < PGSIZE then c ⟨i, h⟩ else 0

/-- The `i`-th `uint64` of a page. -/
def word (c : Page) (i : ℕ) : ℕ := leWord 8 fun k => c.byte (8 * i + k)

/-- Store a `uint64`. -/
def setWord (c : Page) (i w : ℕ) : Page :=
  fun j => if j.val / 8 = i then UInt8.ofNat (w / 256 ^ (j.val % 8)) else c j

/-- Copy bytes to the offset `off`. -/
def patch (c : Page) (off : ℕ) (bs : List UInt8) : Page :=
  fun j => if off ≤ j.val ∧ j.val < off + bs.length then bs.getD (j.val - off) 0 else c j

lemma leWord_ofNat (n w : ℕ) : leWord n (fun k => UInt8.ofNat (w / 256 ^ k)) = w % 256 ^ n := by
  induction n generalizing w with
  | zero => rw [leWord, pow_zero, Nat.mod_one]
  | succ n ih =>
    have hshift : (fun k => UInt8.ofNat (w / 256 ^ (k + 1)))
        = fun k => UInt8.ofNat (w / 256 / 256 ^ k) := by
      funext k
      rw [Nat.div_div_eq_div_mul, pow_succ, mul_comm]
    rw [leWord, hshift, ih, pow_zero, Nat.div_one, UInt8.toNat_ofNat', pow_succ' (256 : ℕ) n,
      Nat.mod_mul]

lemma word_setWord_self (c : Page) {i : ℕ} (w : ℕ) (hi : i < 512) :
    (c.setWord i w).word i = w % 2 ^ 64 := by
  have hbytes : ∀ k < 8, (c.setWord i w).byte (8 * i + k) = UInt8.ofNat (w / 256 ^ k) := by
    intro k hk
    have hlt : 8 * i + k < PGSIZE := by
      simp only [PGSIZE]
      omega
    have hdiv : (8 * i + k) / 8 = i := by omega
    have hmod : (8 * i + k) % 8 = k := by omega
    rw [byte, dif_pos hlt]
    simp only [setWord, hdiv, hmod, if_true]
  rw [show (2 : ℕ) ^ 64 = 256 ^ 8 by norm_num, ← leWord_ofNat, word]
  simp only [leWord, hbytes 0 (by norm_num), hbytes 1 (by norm_num), hbytes 2 (by norm_num),
    hbytes 3 (by norm_num), hbytes 4 (by norm_num), hbytes 5 (by norm_num), hbytes 6 (by norm_num),
    hbytes 7 (by norm_num)]

lemma word_setWord_of_ne (c : Page) {i j : ℕ} (w : ℕ) (hij : j ≠ i) :
    (c.setWord i w).word j = c.word j := by
  have hbytes : ∀ k < 8, (c.setWord i w).byte (8 * j + k) = c.byte (8 * j + k) := by
    intro k hk
    have hdiv : (8 * j + k) / 8 ≠ i := by omega
    simp only [byte, setWord, hdiv, if_false]
  simp only [word, leWord, hbytes 0 (by norm_num), hbytes 1 (by norm_num), hbytes 2 (by norm_num),
    hbytes 3 (by norm_num), hbytes 4 (by norm_num), hbytes 5 (by norm_num), hbytes 6 (by norm_num),
    hbytes 7 (by norm_num)]

/-- A cleared page holds zeros. -/
lemma word_fill_zero (i : ℕ) : (fill 0).word i = 0 := by
  have hbyte : ∀ k, (fill 0).byte k = 0 := by
    intro k
    unfold byte
    split <;> rfl
  simp [word, leWord, hbyte]

end Page

/-! ### Memory -/

/-- The contents of the pages, by page number, and `kmem.freelist`. The list `deny` is not in the
source: it says at which of the next calls of `kalloc` there is no free page, because the other
harts hold them all at that time. -/
structure State where
  page : ℕ → Page
  freelist : ℕ
  deny : List Bool

/-- The calls of `panic`. -/
inductive Panic
  | kfree
  | walk
  | mappagesSize
  | mappagesRemap
  | uvmunmapNotAligned
  | uvmunmapWalk
  | uvmunmapNotMapped
  | uvmunmapNotLeaf
  | inituvm
  | freewalkLeaf
  | uvmcopyPte
  | uvmcopyPresent
  | uvmclear
  | loadseg
  /-- A recursion of `freewalk` that is deeper than a page table. -/
  | freewalkDepth
  /-- A null pointer is used. -/
  | null
  /-- The array `ustack` of `exec` is written beyond its end. -/
  | ustack
  /-- The stack pointer of a new program wraps below zero. -/
  | wrap
  deriving DecidableEq, Repr

/-- Code that uses physical memory. -/
abbrev VmM := Coroutine State Panic Empty

def panic {α : Type} (p : Panic) : VmM α := .fail p

def State.load (s : State) (a : ℕ) : ℕ := (s.page (a / PGSIZE)).word (a % PGSIZE / 8)

/-- Change the page that holds the address `pa`. -/
def State.setPage (s : State) (pa : ℕ) (f : Page → Page) : State :=
  { s with page := Function.update s.page (pa / PGSIZE) (f (s.page (pa / PGSIZE))) }

/-- The `uint64` at `a`. -/
def load (a : ℕ) : VmM ℕ := do return (← get).load a

def setPage (pa : ℕ) (f : Page → Page) : VmM PUnit := modify fun s => s.setPage pa f

/-- Store a `uint64` at `a`. -/
def store (a w : ℕ) : VmM PUnit := setPage a fun c => c.setWord (a % PGSIZE / 8) w

/-- `memset` of a page. -/
def memset (pa : ℕ) (b : UInt8) : VmM PUnit := setPage pa fun _ => .fill b

/-- `memmove` to a physical address, within a page. -/
def memmove (pa : ℕ) (bs : List UInt8) : VmM PUnit := setPage pa fun c => c.patch (pa % PGSIZE) bs

variable (sym : Symbols)

/-! ### kalloc.c -/

/-- Free the page of physical memory pointed at by `pa`. -/
def kfree (pa : ℕ) : VmM PUnit := do
  if pa % PGSIZE ≠ 0 ∨ pa < sym.kend ∨ PHYSTOP ≤ pa then
    panic .kfree
  else
    -- fill with junk to catch dangling refs
    memset pa 1
    store pa (← get).freelist
    modify fun s => { s with freelist := pa }

/-- Free the pages of a range of physical memory. -/
def freerange (start stop : ℕ) : VmM PUnit :=
  forM (List.range ((stop - PGROUNDUP start) / PGSIZE)) fun i =>
    kfree sym (PGROUNDUP start + i * PGSIZE)

def kinit : VmM PUnit := freerange sym sym.kend PHYSTOP

/-- Allocate one page of physical memory. Returns 0 if the memory cannot be allocated. -/
def kalloc : VmM ℕ := do
  let s ← get
  modify fun s => { s with deny := s.deny.tail }
  let r := s.freelist
  if r = 0 ∨ s.deny.headD false = true then
    return 0
  else
    let next ← load r
    modify fun s => { s with freelist := next }
    memset r 5
    return r

/-! ### Page tables -/

/-- The levels of `walk` that are left. -/
def walkFrom (alloc : Bool) : ℕ → ℕ → ℕ → VmM (Option ℕ)
  | 0, pagetable, va => return some (pagetable + 8 * PX 0 va)
  | level + 1, pagetable, va => do
    let pte ← load (pagetable + 8 * PX (level + 1) va)
    if pte &&& PTE_V ≠ 0 then
      walkFrom alloc level (PTE2PA pte) va
    else if alloc then
      let mem ← kalloc
      if mem = 0 then
        return none
      else
        memset mem 0
        store (pagetable + 8 * PX (level + 1) va) (PA2PTE mem ||| PTE_V)
        walkFrom alloc level mem va
    else
      return none

/-- The address of the entry for `va`, or `none` for 0. With `alloc`, create the page-table pages
that are needed. -/
def walk (pagetable va : ℕ) (alloc : Bool) : VmM (Option ℕ) :=
  if MAXVA ≤ va then panic .walk else walkFrom alloc 2 pagetable va

/-- Look up a virtual address; returns the physical address of a user page, or 0. -/
def walkaddr (pagetable va : ℕ) : VmM ℕ :=
  if MAXVA ≤ va then
    return 0
  else do
    match ← walk pagetable va false with
    | none => return 0
    | some a =>
      let pte ← load a
      if pte &&& PTE_V = 0 ∨ pte &&& PTE_U = 0 then return 0 else return PTE2PA pte

/-- The rounds of `mappages` from `a` on. They end at `last`, or `walk` panics, before `fuel` rounds
are over. -/
def mappagesFrom (pagetable last perm : ℕ) : ℕ → ℕ → ℕ → VmM Bool
  | 0, _, _ => return true
  | fuel + 1, a, pa => do
    match ← walk pagetable a true with
    | none => return false
    | some pte =>
      if (← load pte) &&& PTE_V ≠ 0 then
        panic .mappagesRemap
      else
        store pte (PA2PTE pa ||| perm ||| PTE_V)
        if a = last then
          return true
        else
          mappagesFrom pagetable last perm fuel (a + PGSIZE) (pa + PGSIZE)

/-- Create entries for the virtual addresses from `va` on that refer to the physical addresses from
`pa` on; `false` if a page-table page cannot be allocated. -/
def mappages (pagetable va size pa perm : ℕ) : VmM Bool :=
  if size = 0 then
    panic .mappagesSize
  else
    mappagesFrom pagetable (PGROUNDDOWN ((va + size - 1) % 2 ^ 64)) perm (MAXVA / PGSIZE + 1)
      (PGROUNDDOWN va) pa

/-- Remove the mapping of one page. -/
def unmapPage (pagetable a : ℕ) (doFree : Bool) : VmM PUnit := do
  match ← walk pagetable a false with
  | none => panic .uvmunmapWalk
  | some a =>
    let pte ← load a
    if pte &&& PTE_V = 0 then
      panic .uvmunmapNotMapped
    else if PTE_FLAGS pte = PTE_V then
      panic .uvmunmapNotLeaf
    else if doFree then
      kfree sym (PTE2PA pte)
      store a 0
    else
      store a 0

/-- The rounds of the loop `for(a = va; a < va + npages*PGSIZE; a += PGSIZE)`. -/
def unmapRounds (va npages : ℕ) : ℕ := ((va + npages * PGSIZE) % 2 ^ 64 - va) / PGSIZE

/-- Remove `npages` of mappings starting from `va`. Optionally free the physical memory. -/
def uvmunmap (pagetable va npages : ℕ) (doFree : Bool) : VmM PUnit :=
  if va % PGSIZE ≠ 0 then
    panic .uvmunmapNotAligned
  else
    forM (List.range (unmapRounds va npages)) fun i =>
      unmapPage sym pagetable (va + i * PGSIZE) doFree

/-- Create an empty user page table; 0 if out of memory. -/
def uvmcreate : VmM ℕ := do
  let pagetable ← kalloc
  if pagetable = 0 then
    return 0
  else
    memset pagetable 0
    return pagetable

/-- Deallocate user pages to bring the process size from `oldsz` to `newsz`. Returns the new
size. -/
def uvmdealloc (pagetable oldsz newsz : ℕ) : VmM ℕ :=
  if oldsz ≤ newsz then
    return oldsz
  else if PGROUNDUP newsz < PGROUNDUP oldsz then do
    uvmunmap sym pagetable (PGROUNDUP newsz) ((PGROUNDUP oldsz - PGROUNDUP newsz) / PGSIZE) true
    return newsz
  else
    return newsz

/-- The rounds of `uvmalloc` from `a` on. -/
def uvmallocFrom (pagetable oldsz newsz : ℕ) : ℕ → ℕ → VmM ℕ
  | 0, _ => return newsz
  | fuel + 1, a =>
    if a < newsz then do
      let mem ← kalloc
      if mem = 0 then
        let _ ← uvmdealloc sym pagetable a oldsz
        return 0
      else
        memset mem 0
        if ← mappages pagetable a PGSIZE mem (PTE_W ||| PTE_X ||| PTE_R ||| PTE_U) then
          uvmallocFrom pagetable oldsz newsz fuel (a + PGSIZE)
        else
          kfree sym mem
          let _ ← uvmdealloc sym pagetable a oldsz
          return 0
    else
      return newsz

/-- Allocate pages to grow a process from `oldsz` to `newsz`. Returns the new size, or 0 on
error. -/
def uvmalloc (pagetable oldsz newsz : ℕ) : VmM ℕ :=
  if newsz < oldsz then
    return oldsz
  else
    uvmallocFrom sym pagetable (PGROUNDUP oldsz) newsz (newsz / PGSIZE + 1) (PGROUNDUP oldsz)

/-- The indices of the entries of a page-table page. -/
def indices : List ℕ := List.range 512

lemma indices_eq : indices = List.range 512 := Eq.refl indices

attribute [irreducible] indices

/-- Recursively free page-table pages. All leaf mappings must already have been removed. -/
def freewalk : ℕ → ℕ → VmM PUnit
  | 0, _ => panic .freewalkDepth
  | depth + 1, pagetable => do
    forM indices fun i => do
      let pte ← load (pagetable + 8 * i)
      if pte &&& PTE_V ≠ 0 ∧ pte &&& (PTE_R ||| PTE_W ||| PTE_X) = 0 then
        -- this entry points to a lower-level page table
        freewalk depth (PTE2PA pte)
        store (pagetable + 8 * i) 0
      else if pte &&& PTE_V ≠ 0 then
        panic .freewalkLeaf
      else
        return ⟨⟩
    kfree sym pagetable

/-- Free user memory pages, then free page-table pages. -/
def uvmfree (pagetable sz : ℕ) : VmM PUnit := do
  if 0 < sz then
    uvmunmap sym pagetable 0 (PGROUNDUP sz / PGSIZE) true
    freewalk sym 3 pagetable
  else
    freewalk sym 3 pagetable

/-- The rounds of `uvmcopy` from `i` on. -/
def uvmcopyFrom (old new sz : ℕ) : ℕ → ℕ → VmM Bool
  | 0, _ => return true
  | fuel + 1, i =>
    if i < sz then do
      match ← walk old i false with
      | none => panic .uvmcopyPte
      | some a =>
        let pte ← load a
        if pte &&& PTE_V = 0 then
          panic .uvmcopyPresent
        else
          let mem ← kalloc
          if mem = 0 then
            uvmunmap sym new 0 (i / PGSIZE) true
            return false
          else
            let src := (← get).page (PTE2PA pte / PGSIZE)
            setPage mem fun _ => src
            if ← mappages new i PGSIZE mem (PTE_FLAGS pte) then
              uvmcopyFrom old new sz fuel (i + PGSIZE)
            else
              kfree sym mem
              uvmunmap sym new 0 (i / PGSIZE) true
              return false
    else
      return true

/-- Copy the memory of a process into a child's page table; `false` on failure. -/
def uvmcopy (old new sz : ℕ) : VmM Bool := uvmcopyFrom sym old new sz (sz / PGSIZE + 1) 0

/-- Mark an entry invalid for user access. -/
def uvmclear (pagetable va : ℕ) : VmM PUnit := do
  match ← walk pagetable va false with
  | none => panic .uvmclear
  | some a =>
    let pte ← load a
    -- the bits of `pte` apart from `PTE_U`
    store a (pte - (pte &&& PTE_U))

/-! ### Copying to and from user memory -/

/-- The rounds of `copyout`. -/
def copyoutFrom (pagetable : ℕ) : ℕ → ℕ → List UInt8 → VmM Bool
  | 0, _, _ => return true
  | fuel + 1, dstva, src =>
    if src = [] then
      return true
    else do
      let va0 := PGROUNDDOWN dstva
      let pa0 ← walkaddr pagetable va0
      if pa0 = 0 then
        return false
      else
        let n := min src.length (PGSIZE - (dstva - va0))
        memmove (pa0 + (dstva - va0)) (src.take n)
        copyoutFrom pagetable fuel (va0 + PGSIZE) (src.drop n)

/-- Copy from kernel to user; `false` on error. -/
def copyout (pagetable dstva : ℕ) (src : List UInt8) : VmM Bool :=
  copyoutFrom pagetable src.length dstva src

/-- The bytes at a physical address, within a page. -/
def State.bytes (s : State) (pa n : ℕ) : List UInt8 :=
  (List.range n).map fun k => (s.page (pa / PGSIZE)).byte (pa % PGSIZE + k)

/-- The rounds of `copyin`. -/
def copyinFrom (pagetable : ℕ) : ℕ → ℕ → ℕ → VmM (Option (List UInt8))
  | 0, _, _ => return some []
  | fuel + 1, srcva, len =>
    if len = 0 then
      return some []
    else do
      let va0 := PGROUNDDOWN srcva
      let pa0 ← walkaddr pagetable va0
      if pa0 = 0 then
        return none
      else
        let n := min len (PGSIZE - (srcva - va0))
        let bs := (← get).bytes (pa0 + (srcva - va0)) n
        return (← copyinFrom pagetable fuel (va0 + PGSIZE) (len - n)).map (bs ++ ·)

/-- Copy from user to kernel; `none` on error. -/
def copyin (pagetable srcva len : ℕ) : VmM (Option (List UInt8)) :=
  copyinFrom pagetable len srcva len

/-- A page table with the trampoline and the trapframe, but no user memory; 0 if out of memory. -/
def procPagetable (trapframe : ℕ) : VmM ℕ := do
  let pagetable ← uvmcreate
  if pagetable = 0 then
    return 0
  else if ← mappages pagetable TRAMPOLINE PGSIZE sym.trampoline (PTE_R ||| PTE_X) then
    if ← mappages pagetable TRAPFRAME PGSIZE trapframe (PTE_R ||| PTE_W) then
      return pagetable
    else
      uvmunmap sym pagetable TRAMPOLINE 1 false
      uvmfree sym pagetable 0
      return 0
  else
    uvmfree sym pagetable 0
    return 0

def procFreepagetable (pagetable sz : ℕ) : VmM PUnit := do
  uvmunmap sym pagetable TRAMPOLINE 1 false
  uvmunmap sym pagetable TRAPFRAME 1 false
  uvmfree sym pagetable sz

end Xv6.Vm
