import Xv6.Pipe.Basic
import Xv6.Vm.UserCopy

/-!
# One call of piperead

`piperead` together with the user memory that it copies to. The call keeps `pi->lock` from the
moment it finds the pipe not empty, or closed, until it returns, so that it is a function of the
pipe and of the memory at that moment. A call that finds the pipe empty sleeps and then starts
again.
-/

namespace Xv6.Pipes

open Core Coroutine

/-- A pipe, and physical memory. -/
structure ReadState where
  pipe : Pipe
  mem : Vm.State

inductive ReadHalt
  /-- The pipe is empty, and the process sleeps on `&pi->nread`. -/
  | sleep
  | vm (p : Vm.Panic)

abbrev ReadM := Coroutine ReadState ReadHalt Empty

/-- The second loop of `piperead`, with so many rounds left. -/
def copyLoop (pagetable addr : ℕ) : ℕ → ℕ → ReadM ℕ
  | 0, i => return i
  | rounds + 1, i => do
    let pi := (← get).pipe
    if pi.nread = pi.nwrite then
      return i
    else
      let ch := pi.data (pi.nread.toNat % PIPESIZE)
      modify fun s => { s with pipe := { s.pipe with nread := s.pipe.nread + 1 } }
      let copied ← (Vm.copyout pagetable ((addr + i) % 2 ^ 64) [ch]).zoom ReadState.mem
        (fun m s => { s with mem := m }) .vm
      if copied then copyLoop pagetable addr rounds (i + 1) else return i

def piperead (pagetable addr : ℕ) (n : Int32) (killed : Bool) : ReadM ℤ := do
  let pi := (← get).pipe
  if pi.nread = pi.nwrite ∧ pi.writeopen = true then
    if killed then return -1 else .fail .sleep
  else
    return (← copyLoop pagetable addr n.toInt.toNat 0)

/-- Exactly `i` bytes were removed from the pipe, and they are in user memory at `addr`. -/
structure Delivered (pagetable addr i : ℕ) (s s' : ReadState) : Prop where
  pipe : s'.pipe = { s.pipe with nread := s.pipe.nread + UInt32.ofNat i }
  user : ∀ k < i, s'.mem.user pagetable (addr + k)
    = some (s.pipe.data ((s.pipe.nread + UInt32.ofNat k).toNat % PIPESIZE))

/-- The number of bytes in the pipe. -/
def Pipe.available (pi : Pipe) : ℕ := (pi.nwrite - pi.nread).toNat

open Vm
open scoped Pointwise

variable {sym : Symbols} {R : Assn ℕ Page} {F : ReadHalt → Prop} {s₀ s : ReadState} {addr i : ℕ}
  {A : Space sym}

/-! ### The loop -/

/-- After `i` rounds of the loop that began in `s₀`, each of which copied a byte. -/
structure Progress (A : Space sym) (R : Assn ℕ Page) (s₀ : ReadState) (addr i : ℕ)
    (s : ReadState) : Prop where
  delivered : Delivered (A.root * PGSIZE) addr i s₀ s
  available : ∀ k < i, s₀.pipe.nread + UInt32.ofNat k ≠ s₀.pipe.nwrite
  owned : ∃ M, Owned sym s.mem ((A.withMem M).pages + R)

/-- After `i` such rounds a byte was removed that could not be copied. -/
structure Lost (A : Space sym) (s₀ : ReadState) (addr i : ℕ) (s : ReadState) : Prop where
  nread : s.pipe.nread = s₀.pipe.nread + UInt32.ofNat (i + 1)
  available : ∀ k ≤ i, s₀.pipe.nread + UInt32.ofNat k ≠ s₀.pipe.nwrite
  inaccessible : ¬s₀.mem.Accessible (A.root * PGSIZE) (addr + i)

lemma Progress.refl (h : Owned sym s₀.mem (A.pages + R)) : Progress A R s₀ addr 0 s₀ where
  delivered := ⟨by simp, fun k hk => absurd hk (Nat.not_lt_zero k)⟩
  available k hk := absurd hk (Nat.not_lt_zero k)
  owned := ⟨A.mem, h⟩

lemma Progress.accessible_iff (h : Owned sym s₀.mem (A.pages + R)) (hs : Progress A R s₀ addr i s)
    (a : ℕ) : s.mem.Accessible (A.root * PGSIZE) a ↔ s₀.mem.Accessible (A.root * PGSIZE) a := by
  obtain ⟨M, hM⟩ := hs.owned
  exact (Space.accessible_iff_userPage hM).trans (Space.accessible_iff_userPage h).symm

/-- The address of the next byte does not wrap. -/
lemma Progress.addr_mod (hs : Progress A R s₀ addr i s) (haddr : addr < 2 ^ 64) (hi : i < 2 ^ 32) :
    (addr + i) % 2 ^ 64 = addr + i := by
  cases i with
  | zero => exact Nat.mod_eq_of_lt haddr
  | succ i =>
    have hlt := (State.Accessible.of_user (hs.delivered.user 0 (by omega))).1
    rw [MAXVA_eq] at hlt
    exact Nat.mod_eq_of_lt (by omega)

lemma add_ofNat_succ (n : UInt32) (i : ℕ) :
    n + UInt32.ofNat i + 1 = n + UInt32.ofNat (i + 1) := by
  rw [UInt32.add_assoc, Counter.succ]

/-- A byte is removed and copied. -/
lemma Progress.succ (hs : Progress A R s₀ addr i s) {m : Vm.State} {M : ℕ → Page}
    (hne : s₀.pipe.nread + UInt32.ofNat i ≠ s₀.pipe.nwrite)
    (hwrote : Wrote (A.root * PGSIZE) (addr + i)
      [s₀.pipe.data ((s₀.pipe.nread + UInt32.ofNat i).toNat % PIPESIZE)] s.mem m)
    (hM : Owned sym m ((A.withMem M).pages + R)) :
    Progress A R s₀ addr (i + 1)
      ⟨{ s.pipe with nread := s.pipe.nread + 1 }, m⟩ where
  delivered := by
    refine ⟨?_, ?_⟩
    · rw [hs.delivered.pipe, ← add_ofNat_succ]
    · intro k hk
      show m.user _ _ = _
      rw [hwrote.user, writeUser]
      rcases Nat.lt_succ_iff_lt_or_eq.mp hk with hlt | rfl
      · rw [if_neg (by omega)]
        exact hs.delivered.user k hlt
      · rw [if_pos (by simp), Nat.sub_self]
        rfl
  available := by
    intro k hk
    rcases Nat.lt_succ_iff_lt_or_eq.mp hk with hlt | rfl
    · exact hs.available k hlt
    · exact hne
  owned := ⟨M, hM⟩

/-- The call of `copyout` in the loop. -/
lemma wp_zoom_copyout {Q : Bool → ReadState → Prop} (pagetable dstva : ℕ) (src : List UInt8) :
    wp F ((copyout pagetable dstva src).zoom ReadState.mem (fun m s => { s with mem := m }) .vm)
        Q s ↔
      wp (fun e => F (.vm e)) (copyout pagetable dstva src) (fun copied m => Q copied ⟨s.pipe, m⟩)
        s.mem :=
  wp_zoom (fun _ => rfl) (fun _ _ => rfl) fun _ _ _ => rfl

/-- The loop ends because all bytes are copied, because the pipe is empty, or because a byte is
lost. -/
lemma wp_copyLoop {Q : ℕ → ReadState → Prop} {rounds n : ℕ} (haddr : addr < 2 ^ 64)
    (hn : i + rounds = n) (hlt : n < 2 ^ 32) (h : Owned sym s₀.mem (A.pages + R))
    (hs : Progress A R s₀ addr i s)
    (hdone : ∀ j s', j ≤ n → Progress A R s₀ addr j s' →
      (j = n ∨ s₀.pipe.nread + UInt32.ofNat j = s₀.pipe.nwrite) → Q j s')
    (hlost : ∀ j s', j < n → Lost A s₀ addr j s' → Q j s') :
    wp F (copyLoop (A.root * PGSIZE) addr rounds i) Q s := by
  induction rounds generalizing i s with
  | zero => exact hdone i s (by omega) hs (.inl (by omega))
  | succ rounds ih =>
    have hnread : s.pipe.nread = s₀.pipe.nread + UInt32.ofNat i := by rw [hs.delivered.pipe]
    have hnwrite : s.pipe.nwrite = s₀.pipe.nwrite := by rw [hs.delivered.pipe]
    have hdata : s.pipe.data = s₀.pipe.data := by rw [hs.delivered.pipe]
    rw [copyLoop, wp_bind, wp_get]
    dsimp only
    rw [hnread, hnwrite, hdata]
    apply wp_ite
    · exact fun heq => hdone i s (by omega) hs (.inr heq)
    intro hne
    obtain ⟨M, hM⟩ := hs.owned
    rw [wp_bind, wp_modify, wp_bind, wp_zoom_copyout, hs.addr_mod haddr (by omega)]
    have hlost' : ∀ m, ¬s.mem.Accessible (A.root * PGSIZE) (addr + i) →
        Q i ⟨{ s.pipe with nread := s.pipe.nread + 1 }, m⟩ := by
      intro m hno
      refine hlost i _ (by omega) ⟨?_, ?_, mt (hs.accessible_iff h _).mpr hno⟩
      · show s.pipe.nread + 1 = _
        rw [hnread, add_ofNat_succ]
      · intro k hk
        rcases hk.eq_or_lt with rfl | hlt
        · exact hne
        · exact hs.available k hlt
    apply Space.wp_copyout_wrote (A := A.withMem M) hM
    · intro m k M' hk _ hno _ _
      obtain rfl : k = 0 := by simpa using hk
      exact hlost' m hno
    · intro m M' _ hwrote hM'
      exact ih (by omega) (hs.succ hne hwrote hM')

/-! ### The call -/

/-- For every pipe, every process, every address and every `n`: whenever `piperead` returns a number
of bytes, so many bytes were removed from the pipe and are in user memory, if and only if the user
may access all addresses for the bytes that are in the pipe and asked for. -/
theorem piperead_delivers_iff (A : Space sym) (h : Owned sym s.mem (A.pages + R)) (addr : UInt64)
    (n : Int32) (killed : Bool) :
    (∀ i s', (piperead (A.root * PGSIZE) addr.toNat n killed).run s = .ok (i, s') → 0 ≤ i →
      Delivered (A.root * PGSIZE) addr.toNat i.toNat s s') ↔
    ∀ k : ℕ, k < n.toInt → k < s.pipe.available →
      s.mem.Accessible (A.root * PGSIZE) (addr.toNat + k) := by
  by_cases hempty : s.pipe.nread = s.pipe.nwrite ∧ s.pipe.writeopen = true
  · -- the call sleeps or fails
    refine iff_of_true ?_ ?_
    · intro i s' hrun hi
      have hwp : wp (fun _ => True) (piperead (A.root * PGSIZE) addr.toNat n killed)
          (fun i _ => i = -1) s := by
        rw [piperead, wp_bind, wp_get]
        dsimp only
        rw [if_pos hempty]
        exact wp_ite (fun _ => rfl) fun _ => trivial
      have := hwp.returns hrun
      omega
    · intro k _ hk
      rw [Pipe.available, hempty.1, UInt32.sub_self] at hk
      exact absurd hk (Nat.not_lt_zero k)
  have hn := n.toInt_lt
  have haddr : addr.toNat < 2 ^ 64 := addr.toNat_lt
  have hwp : wp (fun _ => False) (piperead (A.root * PGSIZE) addr.toNat n killed) (fun i s' =>
      (∃ j : ℕ, i = j ∧ j ≤ n.toInt.toNat ∧ Progress A R s addr.toNat j s' ∧
        (j = n.toInt.toNat ∨ s.pipe.nread + UInt32.ofNat j = s.pipe.nwrite)) ∨
      ∃ j : ℕ, i = j ∧ j < n.toInt.toNat ∧ Lost A s addr.toNat j s') s := by
    rw [piperead, wp_bind, wp_get]
    dsimp only
    rw [if_neg hempty, wp_bind]
    apply wp_copyLoop haddr (Nat.zero_add _) (by omega) h (.refl h)
    · exact fun j s' hj hs hstop => .inl ⟨j, rfl, hj, hs, hstop⟩
    · exact fun j s' hj hs => .inr ⟨j, rfl, hj, hs⟩
  obtain ⟨i, s', hrun, hpost⟩ := hwp.exists_run
  rcases hpost with ⟨j, rfl, hj, hs, hstop⟩ | ⟨j, rfl, hj, hs⟩
  · refine iff_of_true ?_ ?_
    · intro i s'' hrun' _
      rw [hrun] at hrun'
      cases hrun'
      exact hs.delivered
    · intro k hk havail
      have hkj : k < j := by
        rcases hstop with rfl | hstop
        · omega
        · rw [Pipe.available, ← hstop, UInt32.add_comm, UInt32.add_sub_cancel,
            UInt32.toNat_ofNat'] at havail
          omega
      rw [← hs.accessible_iff h]
      exact .of_user (hs.delivered.user k hkj)
  · refine iff_of_false ?_ ?_
    · intro hall
      have hnread := congrArg Pipe.nread (hall j s' hrun (Int.natCast_nonneg j)).pipe
      rw [hs.nread, Int.toNat_natCast] at hnread
      have heq := congrArg UInt32.toNat ((UInt32.add_right_inj _).mp hnread)
      rw [UInt32.toNat_ofNat', UInt32.toNat_ofNat'] at heq
      omega
    · intro hall
      refine hs.inaccessible (hall j (by omega) ?_)
      by_contra hge
      apply hs.available s.pipe.available (by omega)
      rw [Pipe.available, UInt32.ofNat_toNat, UInt32.add_comm, UInt32.sub_add_cancel]

/-- A pipe that contains one byte. -/
def oneByte : Pipe := ⟨fun _ => 7, 0, 1, true, true⟩

/-- A byte is read into the last byte of a process of one page. -/
theorem piperead_delivers_small : ∃ (m : Vm.State) (A : Space small),
    Owned small m (A.pages + 0) ∧ A.size = 4096 ∧
    ∀ i s', (piperead (A.root * PGSIZE) 4095 1 false).run ⟨oneByte, m⟩ = .ok (i, s') → 0 ≤ i →
      Delivered (A.root * PGSIZE) 4095 i.toNat ⟨oneByte, m⟩ s' := by
  have hboot := run_eq_after (c := firstProcess small 4096) (s := blank [])
    (a := (557055 * PGSIZE, 557054 * PGSIZE)) (by decide +kernel)
  obtain ⟨A, hr, hsize, h⟩ := (wp_firstProcess (by decide)).returns hboot
  generalize hm : after (firstProcess small 4096) (blank []) = m at h
  refine ⟨m, A, h, hsize, (piperead_delivers_iff (s := ⟨oneByte, m⟩) A h 4095 1 false).mpr ?_⟩
  intro k hk _
  obtain rfl : k = 0 := by
    have : (1 : Int32).toInt = 1 := rfl
    omega
  rw [← (Prod.mk.inj hr).2]
  show m.Accessible (557054 * PGSIZE) 4095
  rw [← hm]
  decide +kernel

/-- A byte is read to the address after the last page. The call returns 0, and the pipe is empty. -/
theorem piperead_loses_byte : ∃ (m : Vm.State) (A : Space small),
    Owned small m (A.pages + 0) ∧ A.size = 4096 ∧
    ∃ s', (piperead (A.root * PGSIZE) 4096 1 false).run ⟨oneByte, m⟩ = .ok (0, s') ∧
      s'.pipe.nread = s'.pipe.nwrite := by
  have hboot := run_eq_after (c := firstProcess small 4096) (s := blank [])
    (a := (557055 * PGSIZE, 557054 * PGSIZE)) (by decide +kernel)
  obtain ⟨A, hr, hsize, h⟩ := (wp_firstProcess (by decide)).returns hboot
  have hroot := (Prod.mk.inj hr).2
  refine ⟨_, A, h, hsize, ?_⟩
  rw [← hroot]
  have hrun : ((piperead (557054 * PGSIZE) 4096 1 false).run
      ⟨oneByte, after (firstProcess small 4096) (blank [])⟩).toOption.map
        (fun r => (r.1, r.2.pipe.nread, r.2.pipe.nwrite)) = some (0, 1, 1) := by
    decide +kernel
  generalize (piperead (557054 * PGSIZE) 4096 1 false).run
    ⟨oneByte, after (firstProcess small 4096) (blank [])⟩ = r at hrun ⊢
  match r, hrun with
  | .ok (i, s'), hrun =>
    simp only [Except.toOption, Option.map_some, Option.some.injEq, Prod.mk.injEq] at hrun
    exact ⟨s', by rw [hrun.1], hrun.2.1.trans hrun.2.2.symm⟩

end Xv6.Pipes
