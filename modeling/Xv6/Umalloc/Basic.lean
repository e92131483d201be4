import Xv6.Core.Bytes
import Xv6.Core.Coroutine

/-!
# The user heap allocator

`malloc` and `free` of `user/umalloc.c`, on the bytes of user memory. A header has a pointer in its
first eight bytes and the size of its block, in headers, in the four bytes after them. The free
blocks are a circular list, in which `freep` points to the place where the last search ended.
-/

namespace Xv6.Umalloc

open Core Coroutine

/-- User memory, the variable `freep`, and the size of the process. The list `deny` is not in the
source: it says which of the next calls of `sbrk` fail. -/
structure State where
  mem : Bytes
  freep : ℕ
  brk : ℕ
  deny : List Bool

namespace State

/-- `p->s.ptr` -/
def ptr (s : State) (p : ℕ) : ℕ := s.mem.read p 8

/-- `p->s.size` -/
def size (s : State) (p : ℕ) : ℕ := s.mem.read (p + 8) 4

def setPtr (s : State) (p v : ℕ) : State := { s with mem := s.mem.write p 8 v }

def setSize (s : State) (p n : ℕ) : State := { s with mem := s.mem.write (p + 8) 4 n }

end State

/-- A search loop that goes on for more rounds than the list can have. -/
inductive Halt
  | endless
  deriving DecidableEq, Repr

abbrev AllocM := Coroutine State Halt Empty

/-- `sizeof(Header)` -/
def HEADER : ℕ := 16

/-- More rounds than any walk around the list takes. -/
def rounds (s : State) : ℕ := s.brk

/-! ### free -/

/-- The loop of `free`: the block after which `bp` belongs. -/
def findPlace (bp : ℕ) : ℕ → ℕ → AllocM ℕ
  | 0, _ => .fail .endless
  | fuel + 1, p => do
    let next := (← get).ptr p
    if p < bp ∧ bp < next then
      return p
    else if next ≤ p ∧ (p < bp ∨ bp < next) then
      return p
    else
      findPlace bp fuel next

/-- Join the block to its upper neighbour, or link it to the block after `p`. -/
def joinUpper (p bp : ℕ) (s : State) : State :=
  if bp + s.size bp * HEADER = s.ptr p then
    let s := s.setSize bp (s.size bp + s.size (s.ptr p))
    s.setPtr bp (s.ptr (s.ptr p))
  else
    s.setPtr bp (s.ptr p)

/-- Join the block to its lower neighbour `p`, or link `p` to it. -/
def joinLower (p bp : ℕ) (s : State) : State :=
  if p + s.size p * HEADER = bp then
    let s := s.setSize p (s.size p + s.size bp)
    s.setPtr p (s.ptr bp)
  else
    s.setPtr p bp

def free (ap : ℕ) : AllocM PUnit := do
  let bp := ap - HEADER
  let s ← get
  let p ← findPlace bp (rounds s) s.freep
  modify (joinUpper p bp)
  modify (joinLower p bp)
  modify fun s => { s with freep := p }

/-! ### malloc -/

/-- The kernel gives out memory while the size of a process is a positive `int`. -/
def MAXBRK : ℕ := 2 ^ 31

/-- `sbrk(n)`; `none` is -1. -/
def sbrk (n : ℕ) : AllocM (Option ℕ) := do
  let s ← get
  modify fun s => { s with deny := s.deny.tail }
  if s.deny.headD false = true ∨ MAXBRK ≤ s.brk + n then
    return none
  else
    modify fun s => { s with brk := s.brk + n }
    return some s.brk

/-- Get memory for `nu` headers from the kernel; 0 if there is none. -/
def morecore (nu : ℕ) : AllocM ℕ := do
  let nu := if nu < 4096 then 4096 else nu
  match ← sbrk (nu * HEADER) with
  | none => return 0
  | some p =>
    modify fun s => s.setSize p nu
    free (p + HEADER)
    return (← get).freep

/-- Take `nunits` headers from the block `p`, which has that many, or from its tail. -/
def take (nunits prevp p : ℕ) : AllocM ℕ := do
  let s ← get
  if s.size p = nunits then
    set ({ s.setPtr prevp (s.ptr p) with freep := prevp })
    return p + HEADER
  else
    let s := s.setSize p (s.size p - nunits)
    let p := p + s.size p * HEADER
    set ({ s.setSize p nunits with freep := prevp })
    return p + HEADER

/-- The loop of `malloc`. -/
def search (nunits : ℕ) : ℕ → ℕ → ℕ → AllocM ℕ
  | 0, _, _ => .fail .endless
  | fuel + 1, prevp, p => do
    let s ← get
    if nunits ≤ s.size p then
      take nunits prevp p
    else if p = s.freep then
      let p ← morecore nunits
      if p = 0 then
        return 0
      else
        let next := (← get).ptr p
        search nunits fuel p next
    else
      search nunits fuel p (s.ptr p)

/-- The headers that a block for `nbytes` bytes takes. -/
def units (nbytes : ℕ) : ℕ := (nbytes + HEADER - 1) / HEADER + 1

/-- `malloc(nbytes)`, where `base` is the address of the header of that name. -/
def malloc (base nbytes : ℕ) : AllocM ℕ := do
  let s ← get
  if s.freep = 0 then
    set (({ s.setPtr base base with freep := base }).setSize base 0)
  let s ← get
  search (units nbytes) (2 * rounds s) s.freep (s.ptr s.freep)

end Xv6.Umalloc
