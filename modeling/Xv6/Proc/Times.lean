import Xv6.Proc.Table

/-!
# The time counters

The events of the life of a process, one at a time and in any order, with `clockintr` as one of
them. The counters of a process never say more than the ticks since it was created, so the
differences that `waitx`, `procdump` and the scheduler take of them are not negative.
-/

namespace Xv6

open Core

/-- What happens to the process table. A `fork` is an `allocproc` and later a `forked`, or a
`freeproc` if it fails; `wait` and `waitx` end in `freeproc`. -/
inductive TimeEvent
  | allocproc
  | forked (i q : Fin NPROC)
  | freeproc (i : Fin NPROC)
  | dispatch (i : Fin NPROC)
  | tick
  | sleep (i : Fin NPROC) (chan : Chan)
  | wakeup (p : Option (Fin NPROC)) (chan : Chan)
  | yield (i : Fin NPROC)
  | setpriority (v pid : Int32)
  | kill (pid : Int32)
  | exit (i : Fin NPROC) (status : Int32)
  deriving DecidableEq

namespace Table

def timeStep (s : Table) : TimeEvent → Option Table
  | .allocproc => (s.first (·.state = .unused)).map fun i =>
      { s.setProc i ((s.proc i).allocproc s.nextpid s.ticks) with nextpid := s.nextpid + 1 }
  | .forked i q =>
    if (s.proc i).state = .used then
      some (s.setProc i ((s.proc i).forked q (s.proc q).sz))
    else none
  | .freeproc i =>
    if (s.proc i).state = .used ∨ (s.proc i).state = .zombie then
      some (s.setProc i (s.proc i).freeproc)
    else none
  | .dispatch i =>
    if (s.proc i).state = .runnable then some (s.setProc i ((s.proc i).dispatch s.ticks)) else none
  | .tick => some s.tick
  | .sleep i chan => if (s.proc i).state = .running then some (s.sleep i chan) else none
  | .wakeup p chan => some (s.wakeup p chan)
  | .yield i => if (s.proc i).state = .running then some (s.yield i) else none
  | .setpriority v pid => some <|
    match s.first (·.pid = pid) with
    | none => s
    | some i => s.setProc i ((s.proc i).setpriority v)
  | .kill pid => some (s.kill pid)
  | .exit i status =>
    if (s.proc i).state = .running then
      some (s.setProc i ((s.proc i).exit status s.ticks))
    else none

/-- The runs of these events from the boot of the system. -/
def timeMachine : Machine Table TimeEvent where
  init s := ∃ ticks, s = boot ticks
  next := timeStep

/-- The tick counter does not wrap. -/
def TicksFit (s : Table) (e : TimeEvent) : Prop := e = .tick → s.ticks.toNat + 1 < 2 ^ 32

instance (s : Table) (e : TimeEvent) : Decidable (s.TicksFit e) :=
  inferInstanceAs (Decidable (_ → _))

end Table

/-! ### The counters of a process -/

/-- The counters of a process at tick `t`. -/
structure Timed (t : ℕ) (p : Proc) : Prop where
  create : p.createTime.toNat ≤ t
  run : p.runTime.toNat ≤ p.totalRunTime.toNat
  total : p.createTime.toNat + p.totalRunTime.toNat ≤ t
  sleep : p.createTime.toNat + p.runTime.toNat + p.sleepTime.toNat ≤ t
  live : p.state ≠ .zombie → p.exitTime = 0
  zombie : p.state = .zombie →
    p.createTime.toNat + p.totalRunTime.toNat ≤ p.exitTime.toNat ∧ p.exitTime.toNat ≤ t

namespace Timed

variable {t : ℕ} {p p' : Proc}

/-- A change that leaves the counters alone, and makes no zombie. -/
lemma of_counters (h : Timed t p) (hcreate : p'.createTime = p.createTime)
    (hrun : p'.runTime = p.runTime) (htotal : p'.totalRunTime = p.totalRunTime)
    (hsleep : p'.sleepTime = p.sleepTime) (hexit : p'.exitTime = p.exitTime)
    (hstate : p'.state = .zombie ↔ p.state = .zombie) : Timed t p' := by
  refine ⟨?_, ?_, ?_, ?_, ?_, ?_⟩
  · rw [hcreate]
    exact h.create
  · rw [hrun, htotal]
    exact h.run
  · rw [hcreate, htotal]
    exact h.total
  · rw [hcreate, hrun, hsleep]
    exact h.sleep
  · rw [hexit]
    exact fun hp => h.live fun hz => hp (hstate.mpr hz)
  · rw [hcreate, htotal, hexit]
    exact fun hp => h.zombie (hstate.mp hp)

lemma mono (h : Timed t p) {t' : ℕ} (ht : t ≤ t') : Timed t' p where
  create := h.create.trans ht
  run := h.run
  total := h.total.trans ht
  sleep := h.sleep.trans ht
  live := h.live
  zombie hp := ⟨(h.zombie hp).1, (h.zombie hp).2.trans ht⟩

lemma allocproc (p : Proc) (pid : Int32) (ticks : UInt32) :
    Timed ticks.toNat (p.allocproc pid ticks) := by
  refine ⟨?_, ?_, ?_, ?_, ?_, ?_⟩
  · simp [Proc.allocproc]
  · simp [Proc.allocproc]
  · simp [Proc.allocproc]
  · simp [Proc.allocproc]
  · exact fun _ => rfl
  · exact fun hz => by cases hz

/-- `run_time` and `sleep_time` are set to zero. -/
lemma reset (h : Timed t p) (hcreate : p'.createTime = p.createTime) (hrun : p'.runTime = 0)
    (htotal : p'.totalRunTime = p.totalRunTime) (hsleep : p'.sleepTime = 0)
    (hexit : p'.exitTime = p.exitTime) (hstate : p'.state = .zombie ↔ p.state = .zombie) :
    Timed t p' := by
  refine ⟨?_, ?_, ?_, ?_, ?_, ?_⟩
  · rw [hcreate]
    exact h.create
  · rw [hrun]
    exact Nat.zero_le _
  · rw [hcreate, htotal]
    exact h.total
  · rw [hcreate, hrun, hsleep]
    exact h.create
  · rw [hexit]
    exact fun hp => h.live fun hz => hp (hstate.mpr hz)
  · rw [hcreate, htotal, hexit]
    exact fun hp => h.zombie (hstate.mp hp)

lemma exit (h : Timed t p) {ticks : UInt32} (ht : ticks.toNat = t) (status : Int32) :
    Timed t (p.exit status ticks) := by
  refine ⟨h.create, h.run, h.total, h.sleep, ?_, ?_⟩
  · exact fun hp => absurd rfl hp
  · intro _
    simp only [Proc.exit, UInt32.toNat_toUInt64, ht]
    exact ⟨h.total, le_rfl⟩

lemma wakeup (h : Timed t p) (chan : Chan) : Timed t (p.wakeup chan) := by
  unfold Proc.wakeup
  split_ifs with hsleep
  · exact h.of_counters rfl rfl rfl rfl rfl (by simp [hsleep.1])
  · exact h

lemma kill (h : Timed t p) : Timed t p.kill := by
  have hstate : p.kill.state = .zombie ↔ p.state = .zombie := by
    simp only [Proc.kill]
    split_ifs with hsleep
    · simp [hsleep]
    · rfl
  exact h.of_counters rfl rfl rfl rfl rfl hstate

/-- A clock tick is charged. -/
lemma updateTime (h : Timed t p) (ht : t + 1 < 2 ^ 32) : Timed (t + 1) p.updateTime := by
  have hcreate := h.create
  have hrun := h.run
  have htotal := h.total
  have hsleep := h.sleep
  have hadd : ∀ x : UInt64, x.toNat ≤ t → (x + 1).toNat = x.toNat + 1 := by
    intro x hx
    rw [UInt64.toNat_add]
    simp only [UInt64.reduceToNat]
    omega
  unfold Proc.updateTime
  split
  case h_1 hstate =>
    refine ⟨?_, ?_, ?_, ?_, ?_, ?_⟩
    · exact hcreate.trans (Nat.le_succ t)
    · show (p.runTime + 1).toNat ≤ (p.totalRunTime + 1).toNat
      rw [hadd _ (by omega), hadd _ (by omega)]
      omega
    · show p.createTime.toNat + (p.totalRunTime + 1).toNat ≤ t + 1
      rw [hadd _ (by omega)]
      omega
    · show p.createTime.toNat + (p.runTime + 1).toNat + p.sleepTime.toNat ≤ t + 1
      rw [hadd _ (by omega)]
      omega
    · exact fun _ => h.live (by simp [hstate])
    · exact fun hz => by simp [hstate] at hz
  case h_2 hstate =>
    refine ⟨hcreate.trans (Nat.le_succ t), hrun, htotal.trans (Nat.le_succ t), ?_, ?_, ?_⟩
    · show p.createTime.toNat + p.runTime.toNat + (p.sleepTime + 1).toNat ≤ t + 1
      rw [hadd _ (by omega)]
      omega
    · exact fun _ => h.live (by simp [hstate])
    · exact fun hz => by simp [hstate] at hz
  case h_3 => exact h.mono (Nat.le_succ t)

end Timed

/-! ### Every run -/

namespace Table

variable {s s' : Table} {e : TimeEvent}

/-- The counters of the slots in use. -/
def AllTimed (s : Table) : Prop :=
  ∀ i, (s.proc i).state ≠ .unused → Timed s.ticks.toNat (s.proc i)

lemma AllTimed.setProc (h : s.AllTimed) {i : Fin NPROC} {p : Proc}
    (hp : p.state ≠ .unused → Timed s.ticks.toNat p) : (s.setProc i p).AllTimed := by
  intro j
  rcases eq_or_ne j i with rfl | hji
  · rw [setProc_self]
    exact hp
  · rw [setProc_of_ne s hji]
    exact h j

lemma AllTimed.wakeup (h : s.AllTimed) (p : Option (Fin NPROC)) (chan : Chan) :
    (s.wakeup p chan).AllTimed := by
  intro i
  show (if some i = p then s.proc i else (s.proc i).wakeup chan).state ≠ .unused →
    Timed s.ticks.toNat (if some i = p then s.proc i else (s.proc i).wakeup chan)
  split_ifs
  · exact h i
  · intro hi
    exact (h i fun hunused => hi ((Proc.Moved.wakeup _ _).unused_iff.mpr hunused)).wakeup chan

lemma AllTimed.tick (h : s.AllTimed) (hfit : s.ticks.toNat + 1 < 2 ^ 32) : s.tick.AllTimed := by
  have hticks : (s.ticks + 1).toNat = s.ticks.toNat + 1 := by
    rw [UInt32.toNat_add]
    simp only [UInt32.reduceToNat]
    omega
  have hunused : ∀ p : Proc, p.updateTime.state = p.state := by
    intro p
    unfold Proc.updateTime
    split <;> simp_all
  refine AllTimed.wakeup ?_ none _
  intro i hi
  show Timed (s.ticks + 1).toNat (s.proc i).updateTime
  rw [hticks]
  refine (h i ?_).updateTime hfit
  rwa [hunused] at hi

lemma AllTimed.step (h : s.AllTimed) (hfit : s.TicksFit e) (hstep : s.timeStep e = some s') :
    s'.AllTimed := by
  cases e with
  | allocproc =>
    simp only [timeStep, Option.map_eq_some_iff] at hstep
    obtain ⟨i, -, rfl⟩ := hstep
    exact h.setProc fun _ => .allocproc _ _ _
  | forked i q =>
    simp only [timeStep, Option.ite_some_none_eq_some] at hstep
    obtain ⟨hi, rfl⟩ := hstep
    apply h.setProc
    exact fun _ => (h i (by simp [hi])).of_counters rfl rfl rfl rfl rfl (by simp [hi, Proc.forked])
  | freeproc i =>
    simp only [timeStep, Option.ite_some_none_eq_some] at hstep
    obtain ⟨-, rfl⟩ := hstep
    exact h.setProc fun hunused => absurd rfl hunused
  | dispatch i =>
    simp only [timeStep, Option.ite_some_none_eq_some] at hstep
    obtain ⟨hi, rfl⟩ := hstep
    apply h.setProc
    exact fun _ => (h i (by simp [hi])).reset rfl rfl rfl rfl rfl (by simp [hi, Proc.dispatch])
  | tick =>
    obtain rfl : s.tick = s' := by simpa [timeStep] using hstep
    exact h.tick (hfit rfl)
  | sleep i chan =>
    simp only [timeStep, Option.ite_some_none_eq_some] at hstep
    obtain ⟨hi, rfl⟩ := hstep
    apply h.setProc
    exact fun _ => (h i (by simp [hi])).of_counters rfl rfl rfl rfl rfl (by simp [hi, Proc.sleep])
  | wakeup p chan =>
    obtain rfl : s.wakeup p chan = s' := by simpa [timeStep] using hstep
    exact h.wakeup p chan
  | yield i =>
    simp only [timeStep, Option.ite_some_none_eq_some] at hstep
    obtain ⟨hi, rfl⟩ := hstep
    apply h.setProc
    exact fun _ => (h i (by simp [hi])).of_counters rfl rfl rfl rfl rfl (by simp [hi, Proc.yield])
  | setpriority v pid =>
    simp only [timeStep, Option.some.injEq] at hstep
    subst hstep
    split
    · exact h
    · next i _ =>
      apply h.setProc
      exact fun hi => (h i hi).reset rfl rfl rfl rfl rfl Iff.rfl
  | kill pid =>
    obtain rfl : s.kill pid = s' := by simpa [timeStep] using hstep
    unfold kill
    split
    · exact h
    · next i _ =>
      apply h.setProc
      exact fun hi => (h i fun hu => hi ((Proc.Moved.kill _).unused_iff.mpr hu)).kill
  | exit i status =>
    simp only [timeStep, Option.ite_some_none_eq_some] at hstep
    obtain ⟨hi, rfl⟩ := hstep
    apply h.setProc
    exact fun _ => (h i (by simp [hi])).exit rfl status

lemma AllTimed.of_reachable (h : timeMachine.ReachableBy TicksFit s) : s.AllTimed := by
  refine h.invariant ?_ fun s e s' hs hfit hstep => hs.step hfit hstep
  rintro s ⟨ticks, rfl⟩ i
  unfold boot
  dsimp only
  split_ifs
  · exact fun _ => (Timed.allocproc Proc.zero 1 ticks).of_counters rfl rfl rfl rfl rfl
      (by simp [Proc.allocproc])
  · exact fun hi => absurd rfl hi

end Table

/-! ### What is computed from the counters -/

/-- The tick up to which `procdump` counts. -/
def Proc.dumpEnd (p : Proc) (ticks : UInt32) : ℕ :=
  if p.exitTime > 0 then p.exitTime.toNat else ticks.toNat

namespace Timed

variable {p : Proc} {ticks : UInt32}

/-- A difference of two times that is taken of a later one. -/
lemma sub_sub_toNat {a b c : UInt64} (h : b.toNat + c.toNat ≤ a.toNat) :
    (a - b - c).toNat = a.toNat - b.toNat - c.toNat := by
  rw [UInt64.toNat_sub_of_le, UInt64.toNat_sub_of_le]
  · rw [UInt64.le_iff_toNat_le]
    omega
  · rw [UInt64.le_iff_toNat_le, UInt64.toNat_sub_of_le _ _ (UInt64.le_iff_toNat_le.mpr (by omega))]
    omega

/-- The waiting time that `waitx` computes. -/
lemma wtime (h : Timed ticks.toNat p) (hp : p.state = .zombie) :
    p.times.wtime.toNat = p.exitTime.toNat - p.createTime.toNat - p.runTime.toNat := by
  obtain ⟨hexit, hle⟩ := h.zombie hp
  have hrun := h.run
  have hlt := ticks.toNat_lt
  simp only [Proc.times, UInt64.toNat_toUInt32]
  rw [sub_sub_toNat (by omega), Nat.mod_eq_of_lt (by omega)]

lemma le_dumpEnd (h : Timed ticks.toNat p) :
    p.createTime.toNat + p.totalRunTime.toNat ≤ p.dumpEnd ticks := by
  unfold Proc.dumpEnd
  split_ifs with hexit
  · by_cases hp : p.state = .zombie
    · exact (h.zombie hp).1
    · rw [h.live hp] at hexit
      exact absurd hexit (by decide)
  · exact h.total

/-- The waiting time that `procdump` prints. -/
lemma dumpTimes (h : Timed ticks.toNat p) : (p.dumpTimes ticks).2
    = (UInt32.ofNat (p.dumpEnd ticks - p.createTime.toNat - p.totalRunTime.toNat)).toInt32 := by
  have hle := h.le_dumpEnd
  unfold Proc.dumpEnd at hle ⊢
  unfold Proc.dumpTimes
  dsimp only
  congr 1
  apply UInt32.toNat_inj.mp
  split_ifs at hle ⊢
  · rw [UInt64.toNat_toUInt32, sub_sub_toNat hle, UInt32.toNat_ofNat']
  · rw [UInt64.toNat_toUInt32, sub_sub_toNat (by simpa using hle), UInt32.toNat_ofNat',
      UInt32.toNat_toUInt64]

/-- The product in the scheduler does not overflow. -/
lemma sleepTime_mul (h : Timed ticks.toNat p) :
    (p.sleepTime * 10).toNat = p.sleepTime.toNat * 10 := by
  have hsleep := h.sleep
  have hlt := ticks.toNat_lt
  rw [UInt64.toNat_mul]
  simp only [UInt64.reduceToNat]
  omega

lemma nice (h : Timed ticks.toNat p) : 0 ≤ p.nice.toInt ∧ p.nice.toInt ≤ 10 := by
  have hsleep := h.sleep
  have hlt := ticks.toNat_lt
  have hadd : (p.runTime + p.sleepTime).toNat = p.runTime.toNat + p.sleepTime.toNat := by
    rw [UInt64.toNat_add]
    omega
  unfold Proc.nice
  split_ifs with hpos
  · -- the quotient is at most 10
    have hdiv : (p.sleepTime * 10 / (p.runTime + p.sleepTime)).toNat ≤ 10 := by
      rw [UInt64.toNat_div, h.sleepTime_mul, hadd]
      apply Nat.div_le_of_le_mul
      omega
    have hsmall : ∀ k ≤ 10, 0 ≤ (UInt64.ofNat k).toUInt32.toInt32.toInt ∧
        (UInt64.ofNat k).toUInt32.toInt32.toInt ≤ 10 := by decide
    have hq := hsmall _ hdiv
    rwa [UInt64.ofNat_toNat] at hq
  · decide

end Timed

namespace Table

variable {s : Table}

/-- Init forks a child, which runs for a tick, sleeps for a tick, runs again and exits. -/
def sleeper : Table :=
  (timeMachine.execBy TicksFit (boot 5) [.dispatch 0, .allocproc, .forked 1 0, .dispatch 1, .tick,
    .sleep 1 .ticks, .tick, .dispatch 1, .tick, .exit 1 0]).get (by decide +kernel)

end Table

end Xv6
