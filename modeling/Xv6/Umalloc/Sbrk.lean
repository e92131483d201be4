import Xv6.Proc.Memory
import Xv6.Umalloc.Calls

/-!
# The allocator and the kernel

`malloc` with the integers of the source: the number of headers is a `uint`, the product with
`sizeof(Header)` has 64 bits, and `sbrk` takes it as an `int`, which `growproc` adds to the size of
the process. From a request of 2147483617 bytes on, the `int` is negative, 0 or 16. The call of
`sbrk` then returns the end of user memory all the same, and `morecore` puts a block on the free
list for which there is no memory.
-/

namespace Xv6.Umalloc.Kernel

open Core Coroutine

/-! ### The functions -/

/-- `sbrk(n)`, on a process with the limit `maxMem`; the list `deny` says for which of the next
calls there are not enough pages. The result of `sys_sbrk` is an `int`. -/
def sbrk (maxMem : UInt64) (n : Int32) : AllocM UInt64 := do
  let s ← get
  modify fun s => { s with deny := s.deny.tail }
  let sz := UInt64.ofNat s.brk
  let addr := sz.toUInt32.toInt32
  match growproc { Proc.zero with sz := sz, maxMem := maxMem } n (!s.deny.headD false) with
  | none => return -1
  | some sz =>
    modify fun s => { s with brk := sz.toNat }
    return addr.toInt64.toUInt64

/-- The headers that `morecore` asks for. -/
def coreUnits (nu : UInt32) : UInt32 := if nu < 4096 then 4096 else nu

/-- `nu * sizeof(Header)`, as the argument of `sbrk`. -/
def bytes (nu : UInt32) : Int32 := (nu.toUInt64 * 16).toUInt32.toInt32

/-- Get memory for `nu` headers from the kernel; 0 if there is none. -/
def morecore (maxMem : UInt64) (nu : UInt32) : AllocM ℕ := do
  let nu := coreUnits nu
  let p ← sbrk maxMem (bytes nu)
  if p = -1 then
    return 0
  else
    record p.toNat nu.toNat

/-- `(nbytes + sizeof(Header) - 1)/sizeof(Header) + 1`, as a `uint`. -/
def units (nbytes : UInt32) : UInt32 := ((nbytes.toUInt64 + 16 - 1) / 16 + 1).toUInt32

/-- `malloc(nbytes)`, where `base` is the address of the header of that name. -/
def malloc (maxMem : UInt64) (base : ℕ) (nbytes : UInt32) : AllocM ℕ :=
  mallocBy (morecore maxMem (units nbytes)) base (units nbytes).toNat

/-! ### Numbers -/

variable {maxMem : UInt64} {base : ℕ} {nbytes nu : UInt32} {s : State} {h : Heap} {F : Halt → Prop}

lemma toNat_units (nbytes : UInt32) : (units nbytes).toNat = Umalloc.units nbytes.toNat := by
  have hlt := nbytes.toNat_lt
  have hone : UInt64.toNat 1 = 1 := rfl
  have hheader : UInt64.toNat 16 = 16 := rfl
  rw [units, UInt64.toNat_toUInt32, UInt64.toNat_add, UInt64.toNat_div, UInt64.toNat_sub,
    UInt64.toNat_add, UInt32.toNat_toUInt64, hone, hheader, Umalloc.units, HEADER]
  omega

lemma toNat_coreUnits (nu : UInt32) : (coreUnits nu).toNat = max 4096 nu.toNat := by
  have h4096 : UInt32.toNat 4096 = 4096 := rfl
  unfold coreUnits
  split_ifs with h
  · rw [UInt32.lt_iff_toNat_lt] at h
    omega
  · rw [UInt32.lt_iff_toNat_lt] at h
    omega

lemma bytes_eq (nu : UInt32) : bytes nu = Int32.ofNat (nu.toNat * 16) := by
  have hproduct : (nu.toUInt64 * 16).toUInt32 = UInt32.ofNat (nu.toNat * 16) := by
    rw [← UInt32.toNat_inj]
    simp
  rw [bytes, hproduct, UInt32.toInt32_ofNat']

/-- The argument of `sbrk` is the number of bytes if that is an `int`. -/
lemma toInt_bytes_of_lt (hnu : nu.toNat < 2 ^ 27) : (bytes nu).toInt = nu.toNat * 16 := by
  rw [bytes_eq, Int32.toInt_ofNat_of_lt (by omega)]
  norm_num

lemma toNat_addr {b : ℕ} (hb : b < 2 ^ 31) :
    (UInt64.ofNat b).toUInt32.toInt32.toInt64.toUInt64.toNat = b := by
  have hnarrow : (UInt64.ofNat b).toUInt32 = UInt32.ofNat b := by
    rw [← UInt32.toNat_inj]
    simp
  have hint : (UInt64.ofNat b).toUInt32.toInt32.toInt64.toInt = b := by
    rw [hnarrow, UInt32.toInt32_ofNat', Int32.toInt_toInt64, Int32.toInt_ofNat_of_lt hb]
  have hnonneg : 0 ≤ (UInt64.ofNat b).toUInt32.toInt32.toInt64 := by
    rw [Int64.le_iff_toInt_le, hint]
    exact Int.natCast_nonneg b
  rw [Int64.toNat_toUInt64_of_le hnonneg, Int64.toNatClampNeg, hint, Int.toNat_natCast]

/-- The requests for which the number of bytes is an `int`. -/
lemma coreUnits_lt_iff :
    (coreUnits (units nbytes)).toNat < 2 ^ 27 ↔ nbytes.toNat ≤ 2 ^ 31 - 32 := by
  rw [toNat_coreUnits, toNat_units, Umalloc.units, HEADER]
  omega

/-- The process that calls `sbrk`. -/
def caller (maxMem : UInt64) (s : State) : Proc :=
  { Proc.zero with sz := UInt64.ofNat s.brk, maxMem := maxMem }

lemma toNat_caller_sz (hs : s.brk < MAXBRK) : (caller maxMem s).sz.toNat = s.brk :=
  UInt64.toNat_ofNat_of_lt (show _ < 2 ^ 64 by rw [MAXBRK] at hs; omega)

/-- What a call of `sbrk` does. -/
lemma wp_sbrk {Q : UInt64 → State → Prop} {n : Int32} (hs : s.brk < MAXBRK)
    (hfail : Q (-1) { s with deny := s.deny.tail })
    (hok : ∀ sz p, growproc (caller maxMem s) n (!s.deny.headD false) = some sz →
      p.toNat = s.brk → Q p { s with deny := s.deny.tail, brk := sz.toNat }) :
    wp F (sbrk maxMem n) Q s := by
  simp only [sbrk, wp_bind, wp_get, wp_modify]
  cases hg : growproc (caller maxMem s) n (!s.deny.headD false) with
  | none =>
    rw [caller] at hg
    rw [hg]
    exact hfail
  | some sz =>
    have hg' := hg
    rw [caller] at hg'
    rw [hg']
    exact hok sz _ hg (toNat_addr hs)

lemma ne_neg_one {p : UInt64} (hp : p.toNat < MAXBRK) : p ≠ -1 := by
  rintro rfl
  exact absurd hp (by decide)

/-- The memory that `morecore` asks for is added, if the number of bytes is an `int`. -/
lemma toNat_sz_eq {sz : UInt64} {mem : Bool} (hs : s.brk < MAXBRK) (hpos : 0 < nu.toNat)
    (hnu : nu.toNat < 2 ^ 27) (hg : growproc (caller maxMem s) (bytes nu) mem = some sz) :
    sz.toNat = s.brk + nu.toNat * HEADER ∧ sz ≤ maxMem := by
  have hint := toInt_bytes_of_lt hnu
  have hn : 0 < bytes nu := by
    rw [Int32.lt_iff_toInt_lt, hint]
    exact Int.mul_pos (by omega) (by norm_num)
  have hnat : (bytes nu).toInt.toNat = nu.toNat * HEADER := by
    rw [hint, HEADER_eq]
    omega
  have hsz : (caller maxMem s).sz.toNat = s.brk := toNat_caller_sz hs
  rw [MAXBRK] at hs
  have hadd := growproc_eq_add hg hn (by rw [hsz, hnat, HEADER_eq]; omega)
  rwa [hsz, hnat] at hadd

lemma refills_morecore (hmax : maxMem.toNat < MAXBRK) (hnu : (coreUnits nu).toNat < 2 ^ 27) :
    Refills F (morecore maxMem nu) nu.toNat := by
  intro base C fl live s Q h hfail hok
  have hs := h.arena.brk_lt
  have hcore := toNat_coreUnits nu
  simp only [morecore, wp_bind]
  apply wp_sbrk hs
  · rw [if_pos rfl]
    exact hfail _ ⟨h.arena.of_brk_eq rfl, h.freep, h.ring.of_mem_eq rfl, h.sorted, h.packed,
      h.live_size⟩ rfl
  · intro sz p hg hp
    obtain ⟨hsz, hle⟩ := toNat_sz_eq hs (by omega) hnu hg
    rw [if_neg (ne_neg_one (hp ▸ hs)), hp]
    refine wp_record h (by omega) rfl rfl hsz ?_ fun s' fl' hle hinv hlen hfit => ?_
    · exact lt_of_le_of_lt (UInt64.le_iff_toNat_le.mp hle) hmax
    · obtain ⟨c, hc, hcsize⟩ := hfit
      exact hok s' fl' hle hinv hlen ⟨c, hc, by omega⟩

lemma wp_malloc (hmax : maxMem.toNat < MAXBRK) (hn : nbytes.toNat ≤ 2 ^ 31 - 32)
    (hg : Good base h) :
    wp F (malloc maxMem base nbytes) (fun ap s' => Good base
      ⟨s', if ap = 0 then h.live else ⟨ap, nbytes.toNat⟩ :: h.live,
        h.core ∪ Set.Ico h.s.brk s'.brk, true⟩) h.s := by
  have hmore : Refills F (morecore maxMem (units nbytes)) (Umalloc.units nbytes.toNat) := by
    rw [← toNat_units]
    exact refills_morecore hmax (coreUnits_lt_iff.mpr hn)
  rw [malloc, toNat_units]
  exact hg.wp_mallocBy hmore

/-- The heaps that a program can come to, on a process with the limit `maxMem`. It does not ask for
more than `2 ^ 31 - 32` bytes, and does not shrink its memory. -/
inductive Reachable (maxMem : UInt64) (base : ℕ) : Heap → Prop
  | start {s : State} : s.freep = 0 → base + HEADER ≤ s.brk → s.brk < MAXBRK →
      Reachable maxMem base ⟨s, [], ∅, false⟩
  | malloc {h : Heap} {nbytes : UInt32} {ap : ℕ} {s' : State} : Reachable maxMem base h →
      nbytes.toNat ≤ 2 ^ 31 - 32 → (malloc maxMem base nbytes).run h.s = .ok (ap, s') →
      Reachable maxMem base ⟨s', if ap = 0 then h.live else ⟨ap, nbytes.toNat⟩ :: h.live,
        h.core ∪ Set.Ico h.s.brk s'.brk, true⟩
  | free {h : Heap} {l : Live} {live : List Live} {s' : State} : Reachable maxMem base h →
      h.live.Perm (l :: live) → (free l.ap).run h.s = .ok (⟨⟩, s') →
      Reachable maxMem base ⟨s', live, h.core, true⟩
  | sbrk {h : Heap} {n : Int32} {p : UInt64} {s' : State} : Reachable maxMem base h → 0 ≤ n →
      (sbrk maxMem n).run h.s = .ok (p, s') → Reachable maxMem base { h with s := s' }
  | store {h : Heap} {x : ℕ} {v : UInt8} : Reachable maxMem base h → h.Writable base x →
      Reachable maxMem base { h with s := { h.s with mem := Function.update h.s.mem x v } }

/-- The program's own use of `sbrk`. -/
lemma wp_sbrk_nonneg {n : Int32} (hmax : maxMem.toNat < MAXBRK) (hn : 0 ≤ n) (hg : Good base h) :
    wp F (sbrk maxMem n) (fun _ s' => Good base { h with s := s' }) h.s := by
  have hs := hg.brk_lt
  apply wp_sbrk hs
  · exact hg.grow rfl rfl le_rfl hs
  · intro sz p hgrow _
    have hsz : (caller maxMem h.s).sz.toNat = h.s.brk := toNat_caller_sz hs
    have hn' : n.toInt < 2 ^ 31 := Int32.toInt_lt n
    rcases Int32.lt_or_eq_of_le hn with hpos | rfl
    · rw [MAXBRK] at hs
      obtain ⟨hadd, hle⟩ := growproc_eq_add hgrow hpos (by omega)
      refine hg.grow rfl rfl (by dsimp only; omega) ?_
      exact lt_of_le_of_lt (UInt64.le_iff_toNat_le.mp hle) hmax
    · rw [growproc_zero, Option.some.injEq] at hgrow
      have hsz' : sz.toNat = h.s.brk := by
        rw [← hgrow, UInt32.toNat_toUInt64, UInt64.toNat_toUInt32, hsz]
        exact Nat.mod_eq_of_lt (by rw [MAXBRK] at hs; omega)
      exact hg.grow rfl rfl hsz'.ge (by dsimp only; omega)

lemma Reachable.good (hbase : 0 < base) (hmax : maxMem.toNat < MAXBRK)
    (hrun : Reachable maxMem base h) : Good base h := by
  induction hrun with
  | start hfreep hle hlt => exact .fresh hfreep ⟨hbase, by simp, hle, hlt⟩
  | malloc _ hn hcall ih => exact (wp_malloc (F := fun _ => True) hmax hn ih).returns hcall
  | free _ hl hcall ih => exact (ih.wp_free (F := fun _ => True) hl).returns hcall
  | sbrk _ hn hcall ih => exact (wp_sbrk_nonneg (F := fun _ => True) hmax hn ih).returns hcall
  | store _ hx ih => exact ih.store hx

end Xv6.Umalloc.Kernel
