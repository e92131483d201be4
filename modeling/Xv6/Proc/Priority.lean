import Xv6.Proc.Basic

/-!
# Static and dynamic priority

`setpriority` stores any `int`, sign-extended to 64 bits, and the scheduler subtracts `nice` from
it, adds `5` and cuts the result down to an `int` before it clamps it to `0 .. 100`. This module
compares that with the same formula over the integers: they agree exactly when the sum fits in an
`int`. The range check of the user program lets every priority through.
-/

namespace Xv6

/-- `check_priority_range` of `user/setpriority.c`. -/
def checkPriorityRange (priority : Int32) : Bool := priority ≥ 0 || priority ≤ 100

/-! ### The formula over the integers -/

/-- The share of the time slept, in tenths, as documented. -/
def documentedNice (run sleep : ℕ) : ℕ := if run + sleep = 0 then 5 else 10 * sleep / (run + sleep)

/-- The documented dynamic priority. -/
def documentedDp (priority : ℤ) (run sleep : ℕ) : ℤ :=
  max 0 (min 100 (priority - documentedNice run sleep + 5))

/-- The dynamic priority fits in an `int` before it is clamped. -/
def DpFits (priority : ℤ) (run sleep : ℕ) : Prop :=
  -2 ^ 31 ≤ priority - documentedNice run sleep + 5 ∧
    priority - documentedNice run sleep + 5 < 2 ^ 31

instance (v : ℤ) (run sleep : ℕ) : Decidable (DpFits v run sleep) :=
  inferInstanceAs (Decidable (_ ∧ _))

lemma documentedNice_le (run sleep : ℕ) : documentedNice run sleep ≤ 10 := by
  unfold documentedNice
  split_ifs
  · decide
  · apply Nat.div_le_of_le_mul
    omega

lemma documentedNice_mono_sleep {run sleep sleep' : ℕ} (h : sleep ≤ sleep') :
    documentedNice run sleep ≤ documentedNice run sleep' := by
  unfold documentedNice
  split_ifs with h₀ h₁ h₁
  · exact le_rfl
  · -- a process that has not run at all has slept all of its time
    have hrun : run = 0 := by omega
    rw [hrun, Nat.zero_add, Nat.mul_div_cancel _ (by omega)]
    decide
  · omega
  · rw [Nat.le_div_iff_mul_le (by omega)]
    have hle := Nat.div_mul_le_self (10 * sleep) (run + sleep)
    have htenth : 10 * sleep / (run + sleep) ≤ 10 := Nat.div_le_of_le_mul (by omega)
    generalize 10 * sleep / (run + sleep) = q at hle htenth ⊢
    obtain ⟨d, rfl⟩ := Nat.exists_eq_add_of_le h
    calc q * (run + (sleep + d)) = q * (run + sleep) + q * d := by ring
      _ ≤ 10 * sleep + 10 * d := Nat.add_le_add hle (Nat.mul_le_mul_right d htenth)
      _ = 10 * (sleep + d) := by ring

lemma documentedNice_anti_run {run run' sleep : ℕ} (h : run ≤ run') :
    documentedNice run' sleep ≤ documentedNice run sleep := by
  unfold documentedNice
  split_ifs with h₀ h₁ h₁
  · exact le_rfl
  · omega
  · -- a process that has never slept is not nice
    have hsleep : sleep = 0 := by omega
    simp [hsleep]
  · exact Nat.div_le_div_left (by omega) (by omega)

lemma documentedDp_mono {priority priority' : ℤ} {run sleep run' sleep' : ℕ}
    (h : priority - documentedNice run sleep ≤ priority' - documentedNice run' sleep') :
    documentedDp priority run sleep ≤ documentedDp priority' run' sleep' := by
  unfold documentedDp
  gcongr

/-! ### The formula of the scheduler -/

namespace Proc

/-- The process after it has run and slept for some time. -/
def aged (p : Proc) (run sleep : UInt64) : Proc := { p with runTime := run, sleepTime := sleep }

/-- The sum that the scheduler takes in 64 bits and cuts down is the sum in 32 bits. -/
lemma toInt32_sub_add (v n : Int32) :
    (v.toInt64.toUInt64 - n.toInt64.toUInt64 + 5).toUInt32.toInt32 = v - n + 5 := by
  have hext : ∀ x : BitVec 32, (x.signExtend 64).setWidth 32 = x := by
    intro x
    ext i hi
    rw [BitVec.getElem_setWidth, BitVec.getLsbD_signExtend]
    simp [hi, show i < 64 by omega]
  apply Int32.toBitVec.inj
  simp [hext]

/-- The two clamps of the scheduler. -/
lemma toInt_clamp (z : Int32) :
    (let z := if z < 0 then 0 else z; if 100 < z then 100 else z).toInt
      = max 0 (min 100 z.toInt) := by
  dsimp only
  split_ifs with h₀ h₁ h₁
  · exact absurd h₁ (by decide)
  · rw [Int32.lt_iff_toInt_lt, Int32.toInt_zero] at h₀
    rw [Int32.toInt_zero]
    omega
  · rw [Int32.lt_iff_toInt_lt] at h₁
    simp only [Int32.reduceToInt] at h₁ ⊢
    omega
  · rw [Int32.lt_iff_toInt_lt] at h₀ h₁
    simp only [Int32.reduceToInt, Int32.toInt_zero] at h₀ h₁
    omega

variable {p : Proc}

/-- Within the bounds `nice` is the documented one. -/
lemma toInt_nice (hrun : p.runTime.toNat < 2 ^ 59) (hsleep : p.sleepTime.toNat < 2 ^ 59) :
    p.nice.toInt = documentedNice p.runTime.toNat p.sleepTime.toNat := by
  have hadd : (p.runTime + p.sleepTime).toNat = p.runTime.toNat + p.sleepTime.toNat := by
    rw [UInt64.toNat_add]
    omega
  have hmul : (p.sleepTime * 10).toNat = 10 * p.sleepTime.toNat := by
    simp only [UInt64.toNat_mul, UInt64.reduceToNat]
    omega
  have hpos : 0 < p.runTime + p.sleepTime ↔ p.runTime.toNat + p.sleepTime.toNat ≠ 0 := by
    rw [UInt64.lt_iff_toNat_lt, hadd, UInt64.toNat_zero]
    omega
  have hle := documentedNice_le p.runTime.toNat p.sleepTime.toNat
  unfold nice
  unfold documentedNice at hle ⊢
  split_ifs at hle ⊢ with h₀ h₁ h₁
  · exact absurd h₁ (hpos.mp h₀)
  · -- a quotient of at most ten survives the conversions
    have hsmall : ∀ k ≤ 10, (UInt64.ofNat k).toUInt32.toInt32.toInt = k := by decide
    rw [← hmul, ← hadd, ← UInt64.toNat_div] at hle ⊢
    have hq := hsmall _ hle
    rwa [UInt64.ofNat_toNat] at hq
  · rfl
  · exact absurd (hpos.mpr h₁) h₀

/-- The scheduler's dynamic priority is the documented one, but for the sum that is cut down to an
`int` before the clamps. -/
lemma toInt_dp {v : Int32} (hv : p.priority = v.toInt64.toUInt64)
    (hrun : p.runTime.toNat < 2 ^ 59) (hsleep : p.sleepTime.toNat < 2 ^ 59) :
    p.dp.toInt = max 0 (min 100
      ((v.toInt - documentedNice p.runTime.toNat p.sleepTime.toNat + 5).bmod (2 ^ 32))) := by
  unfold dp
  rw [toInt_clamp, hv, toInt32_sub_add, Int32.toInt_add, Int32.toInt_sub, toInt_nice hrun hsleep]
  simp

end Proc

/-- Cut down to an `int` and clamped, the sum is as documented exactly when it fits: one that is too
large becomes negative, and one that is too small becomes large. -/
lemma clamp_bmod_iff (v : Int32) (run sleep : ℕ) :
    max 0 (min 100 ((v.toInt - documentedNice run sleep + 5).bmod (2 ^ 32)))
      = documentedDp v.toInt run sleep ↔ DpFits v.toInt run sleep := by
  have hnice := documentedNice_le run sleep
  have hlo := v.le_toInt
  have hhi := v.toInt_lt
  unfold documentedDp DpFits
  rw [Int.bmod_def]
  constructor
  · intro h
    omega
  · intro h
    omega

namespace Proc

variable (p : Proc) {v v' : Int32} {run sleep run' sleep' : UInt64}

/-- The dynamic priority that the scheduler computes for a process which was given the priority `v`
and has then run and slept for some time. -/
def dpAfter (v : Int32) (run sleep : UInt64) : ℤ := ((p.setpriority v).aged run sleep).dp.toInt

/-- The dynamic priority is the documented one exactly for the priorities that leave the sum within
an `int`. Among those it never gets better with a larger priority or a longer running time, nor
worse with a longer sleeping time. -/
theorem dpAfter_eq_documentedDp_iff (hrun : run.toNat < 2 ^ 59) (hsleep : sleep.toNat < 2 ^ 59) :
    (p.dpAfter v run sleep = documentedDp v.toInt run.toNat sleep.toNat ↔
        DpFits v.toInt run.toNat sleep.toNat) ∧
      (run'.toNat < 2 ^ 59 → sleep'.toNat < 2 ^ 59 → DpFits v.toInt run.toNat sleep.toNat →
        DpFits v'.toInt run'.toNat sleep'.toNat → v ≤ v' → run ≤ run' → sleep' ≤ sleep →
        p.dpAfter v run sleep ≤ p.dpAfter v' run' sleep') := by
  have hiff : ∀ {v : Int32} {run sleep : UInt64}, run.toNat < 2 ^ 59 → sleep.toNat < 2 ^ 59 →
      (p.dpAfter v run sleep = documentedDp v.toInt run.toNat sleep.toNat ↔
        DpFits v.toInt run.toNat sleep.toNat) := by
    intro v run sleep hrun hsleep
    rw [dpAfter, toInt_dp (p := (p.setpriority v).aged run sleep) rfl hrun hsleep]
    exact clamp_bmod_iff v run.toNat sleep.toNat
  refine ⟨hiff hrun hsleep, ?_⟩
  intro hrun' hsleep' hfits hfits' hv hr hs
  rw [(hiff hrun hsleep).mpr hfits, (hiff hrun' hsleep').mpr hfits']
  apply documentedDp_mono
  have hnice : documentedNice run'.toNat sleep'.toNat ≤ documentedNice run.toNat sleep.toNat :=
    (documentedNice_anti_run (UInt64.le_iff_toNat_le.mp hr)).trans
      (documentedNice_mono_sleep (UInt64.le_iff_toNat_le.mp hs))
  have hpriority := Int32.le_iff_toInt_le.mp hv
  omega

/-- The priorities `20` and `50` of processes that have run for three ticks of ten and five of
ten. -/
theorem dpAfter_eq_documentedDp_fits :
    Proc.zero.dpAfter 20 3 7 = 18 ∧ Proc.zero.dpAfter 50 5 5 = 50 ∧
      Proc.zero.dpAfter 20 3 7 = documentedDp 20 3 7 ∧
      Proc.zero.dpAfter 20 3 7 ≤ Proc.zero.dpAfter 50 5 5 := by
  have h := @dpAfter_eq_documentedDp_iff Proc.zero 20 50 3 7 5 5 (by decide) (by decide)
  exact ⟨by decide, by decide, h.1.mpr (by decide),
    h.2 (by decide) (by decide) (by decide) (by decide) (by decide) (by decide) (by decide)⟩

/-- The largest `int` passes the range check of the user program and is stored, and after one tick
of running the worst priority has become the best one. -/
theorem dpAfter_wraps :
    checkPriorityRange 2147483647 = true ∧ Proc.zero.dpAfter 2147483647 1 0 = 0 ∧
      documentedDp 2147483647 1 0 = 100 ∧ Proc.zero.dpAfter 0 1 0 = 5 := by
  decide

end Proc

end Xv6
