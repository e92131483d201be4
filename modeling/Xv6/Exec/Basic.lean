import Xv6.Exec.Args
import Xv6.Sysfile.Basic
import Xv6.Vm.Process

/-!
# exec

`exec` of `kernel/exec.c` on physical memory. The file is given by what `readi` delivers of it, and
all numbers of its headers are arbitrary. `Sysfile.exec` is the same function on the file system.
-/

namespace Xv6.Exec

open Core Coroutine Vm
open Sysfile (field ELF_MAGIC ELF_PROG_LOAD)

/-- The fields of `struct proc` that `exec` uses. -/
structure Task where
  pagetable : ℕ
  sz : ℕ
  trapframe : ℕ
  name : List UInt8
  deriving DecidableEq, Repr

/-- The fields of a program header that `exec` uses. -/
structure Proghdr where
  type : ℕ
  off : ℕ
  vaddr : ℕ
  filesz : ℕ
  memsz : ℕ
  deriving DecidableEq, Repr

/-- The program header in a `struct proghdr`. -/
def Proghdr.ofBytes (bs : List UInt8) : Proghdr where
  type := field bs 0 4
  off := field bs 8 8
  vaddr := field bs 16 8
  filesz := field bs 32 8
  memsz := field bs 40 8

/-- A new user image that is ready to be committed to. -/
structure Image where
  pagetable : ℕ
  sz : ℕ
  entry : ℕ
  argc : ℕ
  sp : ℕ
  deriving DecidableEq, Repr

def panicOf : Fault → Panic
  | .ustack => .ustack
  | .wrap => .wrap

/-- The rounds of `loadseg` from `i` on. -/
def loadsegFrom (pagetable va : ℕ) (ip : Fs.File) (offset sz : ℕ) : ℕ → ℕ → VmM Bool
  | 0, _ => return true
  | fuel + 1, i =>
    if i < sz then do
      let pa ← walkaddr pagetable ((va + i) % 2 ^ 64)
      if pa = 0 then
        panic .loadseg
      else
        let n := if sz - i < PGSIZE then sz - i else PGSIZE
        let bs := ip.read ((offset + i) % 2 ^ 32) n
        memmove pa bs
        if bs.length ≠ n then
          return false
        else
          loadsegFrom pagetable va ip offset sz fuel (i + PGSIZE)
    else
      return true

/-- Load a program segment into a page table at the virtual address `va`; `false` on failure. -/
def loadseg (pagetable va : ℕ) (ip : Fs.File) (offset sz : ℕ) : VmM Bool :=
  loadsegFrom pagetable va ip offset sz (sz / PGSIZE + 1) 0

/-- The part of a path after its last `/`, as much of it as fits in `p->name`. -/
def programName (path : List UInt8) : List UInt8 :=
  (path.reverse.takeWhile (· ≠ 47)).reverse.take 15

variable (sym : Symbols)

/-- The loop over the program headers, of which `k` are left, the next one at `off`. Returns whether
it came to its end, and `sz`. -/
def loadProgram (pagetable : ℕ) (ip : Fs.File) : ℕ → ℕ → ℕ → VmM (Bool × ℕ)
  | 0, _, sz => return (true, sz)
  | k + 1, off, sz =>
    let bs := ip.read off 56
    let ph := Proghdr.ofBytes bs
    if bs.length ≠ 56 then
      return (false, sz)
    else if ph.type ≠ ELF_PROG_LOAD then
      loadProgram pagetable ip k ((off + 56) % 2 ^ 32) sz
    else if ph.memsz < ph.filesz then
      return (false, sz)
    else if (ph.vaddr + ph.memsz) % 2 ^ 64 < ph.vaddr then
      return (false, sz)
    else do
      let sz1 ← Vm.uvmalloc sym pagetable sz ((ph.vaddr + ph.memsz) % 2 ^ 64)
      if sz1 = 0 then
        return (false, sz)
      else if ph.vaddr % PGSIZE ≠ 0 then
        return (false, sz1)
      else if ← loadseg pagetable ph.vaddr ip (ph.off % 2 ^ 32) (ph.filesz % 2 ^ 32) then
        loadProgram pagetable ip k ((off + 56) % 2 ^ 32) sz1
      else
        return (false, sz1)

/-- The label `bad`, with a page table. -/
def bad (pagetable sz : ℕ) : VmM (Option Image) := do
  procFreepagetable sym pagetable sz
  return none

/-- Allocate two pages at the next page boundary and push the arguments in the second one. -/
def setupStack (pagetable sz entry : ℕ) (argv : List (List UInt8)) : VmM (Option Image) := do
  let sz := PGROUNDUP sz
  let sz1 ← Vm.uvmalloc sym pagetable sz ((sz + 2 * PGSIZE) % 2 ^ 64)
  if sz1 = 0 then
    bad sym pagetable sz
  else
    uvmclear pagetable (sz1 - 2 * PGSIZE)
    match ← pushArgs (Vm.copyout pagetable) panicOf sz1 argv with
    | none => bad sym pagetable sz1
    | some (argc, sp) => return some ⟨pagetable, sz1, entry, argc, sp⟩

/-- `exec` up to the point from which on it cannot fail. The file is `none` if the path has no
inode. -/
def prepare (trapframe : ℕ) (ip : Option Fs.File) (argv : List (List UInt8)) :
    VmM (Option Image) :=
  match ip with
  | none => return none
  | some ip =>
    let elf := ip.read 0 64
    if elf.length ≠ 64 then
      return none
    else if field elf 0 4 ≠ ELF_MAGIC then
      return none
    else do
      let pagetable ← procPagetable sym trapframe
      if pagetable = 0 then
        return none
      else
        let (ok, sz) ← loadProgram sym pagetable ip (field elf 56 2) (field elf 32 8 % 2 ^ 32) 0
        if ok then
          setupStack sym pagetable sz (field elf 24 8) argv
        else
          bad sym pagetable sz

/-- Commit to the user image: the words of the trapframe are `a1`, `epc` and `sp`. -/
def commit (p : Task) (img : Image) (path : List UInt8) : VmM Task := do
  store (p.trapframe + 120) img.sp
  store (p.trapframe + 24) img.entry
  store (p.trapframe + 48) img.sp
  procFreepagetable sym p.pagetable p.sz
  return ⟨img.pagetable, img.sz, p.trapframe, programName path⟩

/-- `exec`: the value returned, with `none` for -1, and the process after it. -/
def exec (p : Task) (ip : Option Fs.File) (path : List UInt8) (argv : List (List UInt8)) :
    VmM (Option ℕ × Task) := do
  match ← prepare sym p.trapframe ip argv with
  | none => return (none, p)
  | some img =>
    let p' ← commit sym p img path
    return (some img.argc, p')

end Xv6.Exec
