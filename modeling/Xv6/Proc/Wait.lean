import Xv6.Proc.Table

/-!
# The system calls `wait` and `waitx`

One round of the loops of `wait` and `waitx` with the values they return and the user addresses they
are given. `sys_waitx` copies the two times to the user when `waitx` has already freed the child, so
a bad address loses it.
-/

namespace Xv6

open Core

namespace Table

variable (s : Table) (p : Fin NPROC)

/-! ### The calls -/

/-- The user memory of the caller: whether `copyout` can write an `int` at an address. -/
abbrev Writable := UInt64 → Bool

/-- The exit status is copied unless the address is null. -/
def statusCopied (writable : Writable) (addr : UInt64) : Bool := addr = 0 || writable addr

/-- What a round of the loop of `wait` or `waitx` returns; `none` when it goes to sleep. The round
changes the table as `Table.wait` says. -/
def waitRet (copied : Bool) : Option Int32 :=
  match s.zombieChild p with
  | some i => some (if copied then (s.proc i).pid else -1)
  | none =>
    if (s.first (·.parent = some p)).isNone || (s.proc p).killed then some (-1) else none

/-- `sys_wait`. -/
def sysWait (writable : Writable) (status : UInt64) : Option UInt64 × Table :=
  let copied := statusCopied writable status
  ((s.waitRet p copied).map (·.toInt64.toUInt64), s.wait p copied)

/-- `sys_waitx`. -/
def sysWaitx (writable : Writable) (status rt wt : UInt64) : Option UInt64 × Table :=
  let copied := statusCopied writable status
  let s' := s.waitx p copied
  match s.waitRet p copied with
  | none => (none, s')
  | some pid =>
    if pid < 0 then (some (-1), s')
    else if writable rt = false then (some (-1), s')
    else if writable wt = false then (some (-1), s')
    else (some pid.toInt64.toUInt64, s')

/-! ### Atomicity -/

variable {s p} {copied : Bool}

/-- A round of `wait` reaps the child it stops at if the status could be copied; another round that
returns leaves the table alone. -/
lemma waitRet_cases {r : Int32} (h : s.waitRet p copied = some r) :
    (∃ i, s.zombieChild p = some i ∧ copied = true ∧ r = (s.proc i).pid ∧
        s.wait p copied = s.setProc i (s.proc i).freeproc) ∨
      ((∀ i, s.zombieChild p = some i → copied = false) ∧ r = -1 ∧ s.wait p copied = s) := by
  unfold waitRet at h
  unfold Table.wait
  cases hz : s.zombieChild p with
  | some i =>
    rw [hz] at h
    cases copied with
    | true =>
      cases h
      exact .inl ⟨i, rfl, rfl, rfl, rfl⟩
    | false =>
      cases h
      exact .inr ⟨fun _ _ => rfl, rfl, rfl⟩
  | none =>
    rw [hz] at h
    dsimp only at h ⊢
    split_ifs at h ⊢
    cases h
    exact .inr ⟨by simp, rfl, rfl⟩

/-- A round that goes to sleep changes the state and the channel of the caller only. -/
lemma wait_of_waitRet_none (h : s.waitRet p copied = none) :
    s.wait p copied = s.sleep p (.proc p) := by
  unfold waitRet at h
  unfold Table.wait
  cases hz : s.zombieChild p with
  | some i => simp [hz] at h
  | none =>
    rw [hz] at h
    dsimp only at h ⊢
    split_ifs at h ⊢
    rfl

/-- A slot that is reaped does not keep its state. -/
lemma wait_ne {i : Fin NPROC} (hi : s.zombieChild p = some i) : s.wait p true ≠ s := by
  have hzombie : (s.proc i).state = .zombie := by
    have := first_eq_some hi
    simp only [Bool.and_eq_true, decide_eq_true_eq] at this
    exact this.2
  have hwait : s.wait p true = s.setProc i (s.proc i).freeproc := by
    rw [Table.wait, hi]
    rfl
  intro heq
  have hstate : ((s.wait p true).proc i).state = (s.proc i).state := by rw [heq]
  rw [hwait, setProc_self, hzombie] at hstate
  cases hstate

/-- A call that returns `-1` has changed nothing. -/
def Atomic (s : Table) (out : Option UInt64 × Table) : Prop := out.1 = some (-1) → out.2 = s

/-- A call that sleeps has changed the state and the channel of the caller, and nothing else. -/
def Sleeps (s : Table) (p : Fin NPROC) (out : Option UInt64 × Table) : Prop :=
  out.1 = none → out.2 = s.setProc p { s.proc p with state := .sleeping, chan := .proc p }

lemma toUInt64_eq_neg_one {r : Int32} : r.toInt64.toUInt64 = -1 ↔ r = -1 := by
  constructor
  · intro h
    have h' : r.toInt64.toUInt64.toInt64.toInt32 = -1 := by
      rw [h]
      rfl
    simpa using h'
  · rintro rfl
    rfl

variable {writable : Writable} {status rt wt : UInt64}

lemma sysWait_atomic_iff : Atomic s (s.sysWait p writable status) ↔
    ∀ i, s.zombieChild p = some i → statusCopied writable status = true →
      (s.proc i).pid ≠ -1 := by
  unfold Atomic sysWait
  dsimp only
  generalize statusCopied writable status = copied
  constructor
  · intro h i hi hcopied hpid
    subst hcopied
    have hret : s.waitRet p true = some (-1) := by simp [waitRet, hi, hpid]
    exact wait_ne hi (h (by rw [hret]; rfl))
  · intro h hret
    obtain ⟨r, hr, hneg⟩ := Option.map_eq_some_iff.mp hret
    rw [toUInt64_eq_neg_one] at hneg
    rcases waitRet_cases hr with ⟨i, hi, hcopied, rfl, -⟩ | ⟨-, -, hwait⟩
    · exact absurd hneg (h i hi hcopied)
    · exact hwait

/-- What is left to do when `waitx` has returned the pid of a child. -/
def Delivers (writable : Writable) (rt wt : UInt64) (pid : Int32) : Prop :=
  0 ≤ pid ∧ writable rt = true ∧ writable wt = true

lemma sysWaitx_atomic_iff : Atomic s (s.sysWaitx p writable status rt wt) ↔
    ∀ i, s.zombieChild p = some i → statusCopied writable status = true →
      Delivers writable rt wt (s.proc i).pid := by
  unfold Atomic sysWaitx Delivers waitx
  dsimp only
  generalize statusCopied writable status = copied
  constructor
  · intro h i hi hcopied
    subst hcopied
    have hret : s.waitRet p true = some (s.proc i).pid := by simp [waitRet, hi]
    rw [hret] at h
    dsimp only at h
    split_ifs at h with hpid hrt hwt
    · exact absurd (h rfl) (wait_ne hi)
    · exact absurd (h rfl) (wait_ne hi)
    · exact absurd (h rfl) (wait_ne hi)
    · exact ⟨Int32.not_lt.mp hpid, by simpa using hrt, by simpa using hwt⟩
  · intro h hret
    cases hr : s.waitRet p copied with
    | none => simp [hr] at hret
    | some pid =>
      rw [hr] at hret
      have hwait : s.wait p copied = s := by
        rcases waitRet_cases hr with ⟨i, hi, hcopied, rfl, -⟩ | ⟨-, -, hwait⟩
        · -- the call got through all of its checks, so it returned the pid
          obtain ⟨hpid, hrt, hwt⟩ := h i hi hcopied
          simp only [Int32.not_lt.mpr hpid, hrt, hwt, if_false, Bool.true_eq_false,
            Option.some.injEq] at hret
          rw [toUInt64_eq_neg_one] at hret
          rw [hret] at hpid
          exact absurd hpid (by decide)
        · exact hwait
      dsimp only
      split_ifs <;> exact hwait

/-- For every table, caller and choice of addresses: `sys_wait` is atomic on error, unless a pid has
wrapped to `-1`. `sys_waitx` is so exactly when a child that it would reap can be delivered: both
times can be copied, and the pid is not negative. A call that has to wait changes nothing but the
state and the channel of the caller. -/
theorem wait_atomic_iff (s : Table) (p : Fin NPROC) (writable : Writable)
    (status rt wt : UInt64) :
    (Atomic s (s.sysWait p writable status) ↔
        ∀ i, s.zombieChild p = some i → statusCopied writable status = true →
          (s.proc i).pid ≠ -1) ∧
      (Atomic s (s.sysWaitx p writable status rt wt) ↔
        ∀ i, s.zombieChild p = some i → statusCopied writable status = true →
          Delivers writable rt wt (s.proc i).pid) ∧
      Sleeps s p (s.sysWait p writable status) ∧
      Sleeps s p (s.sysWaitx p writable status rt wt) := by
  refine ⟨sysWait_atomic_iff, sysWaitx_atomic_iff, ?_, ?_⟩
  · intro h
    exact wait_of_waitRet_none (by simpa [sysWait] using h)
  · intro h
    simp only [sysWaitx] at h ⊢
    cases hr : s.waitRet p (statusCopied writable status) with
    | none => exact wait_of_waitRet_none hr
    | some pid =>
      rw [hr] at h
      dsimp only at h
      split_ifs at h

/-- Init forks a child, which exits. -/
def childExited : Table :=
  (machine.exec (boot 0) [.dispatch 0, .fork 0 ⟨true, true, true⟩, .yield 0, .dispatch 1, .exit 1 7,
    .dispatch 0]).get (by decide +kernel)

/-- With a good address for the status only, `waitx` fails and the child is gone: a second call
finds no children. -/
theorem sysWaitx_loses_child : machine.Reachable childExited ∧
    (childExited.proc 1).state = .zombie ∧ (childExited.proc 1).pid = 2 ∧
    (childExited.sysWaitx 0 (· = 4096) 4096 0 0).1 = some (-1) ∧
    ((childExited.sysWaitx 0 (· = 4096) 4096 0 0).2.proc 1).state = .unused ∧
    ((childExited.sysWaitx 0 (· = 4096) 4096 0 0).2.sysWait 0 (· = 4096) 4096).1 = some (-1) := by
  have hreach : machine.Reachable childExited :=
    .of_exec ⟨0, rfl⟩ (Option.some_get _).symm
  exact ⟨hreach, by decide +kernel, by decide +kernel, by decide +kernel, by decide +kernel,
    by decide +kernel⟩

end Table

end Xv6
