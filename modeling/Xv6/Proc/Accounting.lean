import Xv6.Proc.Table

/-!
# Running and waiting times

`total_run_time` counts the clock ticks charged to a process since it was created. `run_time` is
meant for the dynamic priority: `scheduler` and `setpriority` set it to zero. `waitx` reports
`run_time`, so what it says is the truth only if nothing was charged before the last reset.
-/

namespace Xv6

open Core

/-! ### Counting ticks -/

/-- The ticks charged to a process. -/
def ranTicks (life : List Life) : ℕ := life.count .charged

/-- The ticks charged since `run_time` was last set to zero. -/
def sinceReset : List Life → ℕ
  | [] => 0
  | .charged :: life => sinceReset life + 1
  | .reset :: _ => 0

/-- The ticks charged before `run_time` was last set to zero. -/
def beforeReset : List Life → ℕ
  | [] => 0
  | .charged :: life => beforeReset life
  | .reset :: life => ranTicks life

lemma sinceReset_add_beforeReset (life : List Life) :
    sinceReset life + beforeReset life = ranTicks life := by
  induction life with
  | nil => rfl
  | cons l life ih =>
    cases l with
    | charged =>
      simp only [sinceReset, beforeReset, ranTicks, List.count_cons_self] at ih ⊢
      omega
    | reset => simp [sinceReset, beforeReset, ranTicks]

/-- The counters of a slot in use say what was charged. -/
def Counted (p : Proc) : Prop :=
  p.state ≠ .unused → p.totalRunTime = .ofNat (ranTicks p.life) ∧
    p.runTime = .ofNat (sinceReset p.life)

variable {p : Proc}

lemma Counted.moved {p' : Proc} (h : Counted p) (hm : p.Moved p') : Counted p' := by
  intro hp
  rw [hm.totalRunTime, hm.runTime, hm.life]
  exact h fun hu => hp (hm.unused_iff.mpr hu)

namespace Table

variable {s s' : Table} {e : ProcCall}

lemma SlotStep.counted {p' : Proc} (hstep : SlotStep s e p p') (h : Counted p) : Counted p' := by
  cases hstep with
  | allocproc pid _ => exact fun _ => ⟨rfl, rfl⟩
  | freeproc => exact fun hp => absurd rfl hp
  | forked q _ hp => exact fun _ => h (by simp [hp])
  | exec q f sz _ _ _ _ => exact h
  | growproc n mem sz _ _ => exact h
  | setpriority q i v pid _ _ _ =>
    intro hp
    refine ⟨?_, rfl⟩
    have := (h hp).1
    simpa [Proc.setpriority, ranTicks] using this
  | yield hp => exact h.moved (.yield hp)
  | sleep chan hp => exact h.moved (.sleep hp chan)
  | wakeup chan => exact h.moved (.wakeup p chan)
  | reparent q => exact h.moved (.reparent p q s.initproc)
  | exit status hp => exact h.moved (.exit hp status s.ticks)
  | kill q i pid _ _ _ => exact h.moved (.kill p)
  | dispatch hp =>
    intro _
    refine ⟨?_, rfl⟩
    have := (h (by simp [hp])).1
    simpa [Proc.dispatch, ranTicks] using this
  | updateTime =>
    unfold Proc.updateTime
    split
    case h_1 hrun =>
      intro _
      obtain ⟨htotal, hrunTime⟩ := h (by simp [hrun])
      constructor
      · simp only [htotal, ranTicks, List.count_cons_self, UInt64.ofNat_add]
        rfl
      · simp only [hrunTime, sinceReset, UInt64.ofNat_add]
        rfl
    case h_2 => exact h
    case h_3 => exact h

lemma Counted.of_reachable (h : machine.Reachable s) (i : Fin NPROC) : Counted (s.proc i) := by
  refine h.invariant (I := fun s => ∀ i, Counted (s.proc i)) ?_ ?_ i
  · rintro s ⟨ticks, rfl⟩ i
    unfold boot
    dsimp only
    split_ifs
    · exact fun _ => ⟨rfl, rfl⟩
    · exact fun hp => absurd rfl hp
  · exact fun s e s' hs hstep => forall_slots_of_step hs hstep fun p p' => SlotStep.counted

/-! ### What `waitx` reports -/

/-- The times `t` are those of the whole life of `p`, and `procdump` prints the same. -/
structure Truthful (p : Proc) (ticks : UInt32) (t : Proc.Times) : Prop where
  rtime : t.rtime.toNat = ranTicks p.life
  wtime : t.wtime = (p.exitTime - p.createTime - .ofNat (ranTicks p.life)).toUInt32
  procdump : p.dumpTimes ticks = (t.rtime.toInt32, t.wtime.toInt32)

variable {ticks : UInt32}

/-- When a counted process has run in one piece, `waitx` and `procdump` tell the truth. -/
lemma Truthful.of_beforeReset (hp : Counted p) (hstate : p.state ≠ .unused)
    (hbefore : beforeReset p.life = 0) (hlt : ranTicks p.life < 2 ^ 32)
    (hexit : p.exitTime = 0 → ticks = 0) : Truthful p ticks p.times := by
  obtain ⟨htotal, hrun⟩ := hp hstate
  have hsum := sinceReset_add_beforeReset p.life
  have hsame : p.runTime = .ofNat (ranTicks p.life) := by
    rw [hrun]
    congr 1
    omega
  refine ⟨?_, ?_, ?_⟩
  · simp only [Proc.times, hsame, UInt64.toNat_toUInt32, UInt64.toNat_ofNat']
    omega
  · simp only [Proc.times, hsame]
  · unfold Proc.dumpTimes Proc.times
    rw [htotal, hsame]
    by_cases hzero : p.exitTime = 0
    · rw [hexit hzero, hzero]
      simp
    · have hpos : p.exitTime > 0 := by grind
      simp only [if_pos hpos]

lemma Truthful.beforeReset_eq_zero (hp : Counted p) (hstate : p.state ≠ .unused)
    (h : Truthful p ticks p.times) : beforeReset p.life = 0 ∧ ranTicks p.life < 2 ^ 32 := by
  have hsum := sinceReset_add_beforeReset p.life
  have hrtime := h.rtime
  simp only [Proc.times, (hp hstate).2, UInt64.toNat_toUInt32, UInt64.toNat_ofNat'] at hrtime
  omega

/-- A zombie that died at tick `0` is still waiting for `procdump`. -/
lemma Truthful.ticks_eq_zero (hp : Counted p) (hstate : p.state ≠ .unused)
    (h : Truthful p ticks p.times) (hexit : p.exitTime = 0) : ticks = 0 := by
  have hwait := congrArg Prod.snd h.procdump
  have hsame : p.totalRunTime = p.runTime := by
    have hsum := sinceReset_add_beforeReset p.life
    have hzero := h.beforeReset_eq_zero hp hstate
    rw [(hp hstate).1, (hp hstate).2]
    congr 1
    omega
  have hticks : ticks.toInt32 - p.createTime.toUInt32.toInt32 = -p.createTime.toUInt32.toInt32 := by
    simpa [Proc.dumpTimes, Proc.times, hexit, hsame] using hwait
  have hzero : ticks.toInt32 = 0 := by grind
  have := congrArg Int32.toUInt32 hzero
  rwa [UInt32.toUInt32_toInt32] at this

/-- `waitx` reports the ticks charged during the whole life of the child it reaps, and agrees with
`procdump`, exactly if no tick was charged before `run_time` was last reset (by a dispatch or by
`setpriority`), the ticks fit in a `uint`, and the child did not die at tick `0`, which `procdump`
takes for a process that has not finished. -/
theorem waitx_truthful_iff (hs : machine.Reachable s) {p i : Fin NPROC} {t : Proc.Times}
    (hi : s.zombieChild p = some i) (ht : s.waitxTimes p = some t) :
    Truthful (s.proc i) s.ticks t ↔
      beforeReset (s.proc i).life = 0 ∧ ranTicks (s.proc i).life < 2 ^ 32 ∧
        ((s.proc i).exitTime = 0 → s.ticks = 0) := by
  have hcounted := Counted.of_reachable hs i
  have hstate : (s.proc i).state ≠ .unused := by
    have := first_eq_some hi
    simp only [Bool.and_eq_true, decide_eq_true_eq] at this
    simp [this.2]
  obtain rfl : (s.proc i).times = t := by simpa [waitxTimes, hi] using ht
  constructor
  · intro h
    obtain ⟨hbefore, hlt⟩ := h.beforeReset_eq_zero hcounted hstate
    exact ⟨hbefore, hlt, h.ticks_eq_zero hcounted hstate⟩
  · rintro ⟨hbefore, hlt, hexit⟩
    exact .of_beforeReset hcounted hstate hbefore hlt hexit

/-- Init forks a child, which runs for one tick and exits. -/
def oneRun : Table :=
  (machine.exec (boot 5) [.dispatch 0, .fork 0 ⟨true, true, true⟩, .dispatch 1, .tick,
    .exit 1 0]).get (by decide +kernel)

theorem waitx_truthful_iff_oneRun :
    oneRun.waitxTimes 0 = some ⟨1, 0⟩ ∧
      (Truthful (oneRun.proc 1) oneRun.ticks ⟨1, 0⟩ ↔
        beforeReset (oneRun.proc 1).life = 0 ∧ ranTicks (oneRun.proc 1).life < 2 ^ 32 ∧
          ((oneRun.proc 1).exitTime = 0 → oneRun.ticks = 0)) :=
  ⟨by decide +kernel, waitx_truthful_iff (p := 0) (.of_exec ⟨5, rfl⟩ (Option.some_get _).symm)
    (by decide +kernel) (by decide +kernel)⟩

/-- The same with the tick in the first of two runs of the child. -/
def twoRuns : Table :=
  (machine.exec (boot 5) [.dispatch 0, .fork 0 ⟨true, true, true⟩, .dispatch 1, .tick, .yield 1,
    .dispatch 1, .exit 1 0]).get (by decide +kernel)

/-- `waitx` reports no running time and one tick of waiting, but the child ran for that tick. -/
theorem twoRuns_not_truthful :
    machine.Reachable twoRuns ∧ twoRuns.zombieChild 0 = some 1 ∧
      twoRuns.waitxTimes 0 = some ⟨0, 1⟩ ∧ ranTicks (twoRuns.proc 1).life = 1 ∧
      (twoRuns.proc 1).dumpTimes twoRuns.ticks = (1, 0) ∧
      ¬ Truthful (twoRuns.proc 1) twoRuns.ticks ⟨0, 1⟩ := by
  have hran : ranTicks (twoRuns.proc 1).life = 1 := by decide +kernel
  refine ⟨.of_exec ⟨5, rfl⟩ (Option.some_get _).symm, by decide +kernel, by decide +kernel, hran,
    by decide +kernel, fun h => ?_⟩
  have := h.rtime
  rw [hran] at this
  exact absurd this (by decide)

end Table

end Xv6
