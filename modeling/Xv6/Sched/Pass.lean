import Mathlib.Data.Prod.Lex
import Xv6.Core.Coroutine
import Xv6.Proc.Basic

/-!
# One pass of the selection loop

The loop of `scheduler` over the process table, with the locks that its hart takes and gives back.
The lock of the best process so far stays held while the loop goes on, and each exit of the loop
body has to release the right one of two locks. `Chosen` says what the variables of the loop and the
hart have to do with each other after a part of the table.
-/

namespace Xv6.Pass

open Core

/-- What a hart has of locks: `struct cpu`, the interrupt enable bit, and the process locks that are
its own. -/
structure Hart where
  noff : ℤ
  intena : Bool
  intr : Bool
  held : Finset ℕ
  deriving DecidableEq

inductive Panic
  | acquire
  | release
  | popOffInterruptible
  | popOff
  deriving DecidableEq, Repr

abbrev HartM := Coroutine Hart Panic Empty

/-- `intr_on`. -/
def intrOn : HartM Unit := modify fun h => { h with intr := true }

/-- `push_off`. -/
def pushOff : HartM Unit :=
  modify fun h =>
    { h with
      intr := false
      intena := if h.noff = 0 then h.intr else h.intena
      noff := h.noff + 1 }

/-- `pop_off`. -/
def popOff : HartM Unit := do
  let c ← get
  if c.intr then .fail .popOffInterruptible
  else if c.noff < 1 then .fail .popOff
  else
    modify fun h =>
      { h with
        noff := c.noff - 1
        intr := if c.noff - 1 = 0 ∧ c.intena then true else h.intr }

/-- `acquire` of the lock of slot `i`, when the other harts have let it go. -/
def acquire (i : ℕ) : HartM Unit := do
  pushOff
  if i ∈ (← get).held then .fail .acquire
  else modify fun h => { h with held := insert i h.held }

/-- `release` of the lock of slot `i`. -/
def release (i : ℕ) : HartM Unit := do
  if i ∉ (← get).held then .fail .release
  else do
    modify fun h => { h with held := h.held.erase i }
    popOff

/-- The variables `best`, a pointer into the table with the process it points to, and `best_dp`. -/
structure Selection where
  best : Option (ℕ × Proc)
  bestDp : Int32
  deriving DecidableEq

/-- The value of `elegir` for the process `p`. -/
def Selection.elegir (b : Selection) (p : Proc) : Bool :=
  if p.dp < b.bestDp then true
  else
    match b.best with
    | none => false
    | some (_, best) =>
      if p.dp = b.bestDp ∧ p.nRuns < best.nRuns then true
      else p.dp = b.bestDp && p.nRuns = best.nRuns && p.createTime < best.createTime

/-- `if(best != 0) release(&best->lock)`. -/
def releaseBest : Option (ℕ × Proc) → HartM Unit
  | none => pure ()
  | some (j, _) => release j

/-- The selection loop from slot `i` on. -/
def selectFrom : List Proc → ℕ → Selection → HartM Selection
  | [], _, b => pure b
  | p :: ps, i, b => do
    acquire i
    if p.state ≠ .runnable then do
      release i
      selectFrom ps (i + 1) b
    else if b.elegir p then do
      releaseBest b.best
      selectFrom ps (i + 1) ⟨some (i, p), p.dp⟩
    else do
      release i
      selectFrom ps (i + 1) b

/-- One pass of the selection loop over the table. -/
def select (proc : List Proc) : HartM (Option (ℕ × Proc)) := do
  intrOn
  return (← selectFrom proc 0 ⟨none, 999999⟩).best

/-- A round of the endless loop of `scheduler`: the table at that time, and the `intena` that the
hart has when the chosen process switches back. -/
structure Round where
  proc : List Proc
  intena : Bool

/-- The rounds of `scheduler`. The process that was chosen comes back by `sched`, which makes sure
that the hart holds the lock of that process and no other lock. -/
def scheduler : List Round → HartM Unit
  | [] => pure ()
  | r :: rs => do
    match ← select r.proc with
    | none => scheduler rs
    | some (j, _) => do
      modify fun h => { h with intena := r.intena }
      release j
      scheduler rs

/-- A hart that enters `scheduler`. -/
def boot : Hart where
  noff := 0
  intena := false
  intr := false
  held := ∅

/-! ### What the loop prefers -/

/-- The order of preference: dynamic priority, number of runs, time of creation, slot. -/
def key (p : Proc) (i : ℕ) : ℤ ×ₗ ℕ ×ₗ ℕ ×ₗ ℕ :=
  toLex (p.dp.toInt, toLex (p.nRuns.toNat, toLex (p.createTime.toNat, i)))

variable {q : Proc}

lemma key_le_iff {p : Proc} {i j : ℕ} :
    key p i ≤ key q j ↔ p.dp.toInt < q.dp.toInt ∨ p.dp.toInt = q.dp.toInt ∧
      (p.nRuns.toNat < q.nRuns.toNat ∨ p.nRuns.toNat = q.nRuns.toNat ∧
        (p.createTime.toNat < q.createTime.toNat ∨
          p.createTime.toNat = q.createTime.toNat ∧ i ≤ j)) := by
  simp only [key, Prod.Lex.toLex_le_toLex]

/-- The clamps keep every dynamic priority below the value that the loop starts with. -/
lemma dp_lt_sentinel (p : Proc) : p.dp < 999999 := by
  unfold Proc.dp
  dsimp only
  split_ifs with h₀ h₁ h₁
  · decide
  · decide
  · decide
  · exact Int32.lt_of_le_of_lt (Int32.not_lt.mp h₁) (by decide)

/-- Against a process of an earlier slot, `elegir` is strict precedence in the order of keys. -/
lemma elegir_iff {j i : ℕ} {p : Proc} (hji : j < i) :
    Selection.elegir ⟨some (j, q), q.dp⟩ p = true ↔ key p i < key q j := by
  rw [← not_le, key_le_iff]
  simp only [Selection.elegir, Int32.lt_iff_toInt_lt, UInt64.lt_iff_toNat_lt, ← Int32.toInt_inj,
    ← UInt64.toNat_inj]
  split_ifs <;> simp <;> omega

/-- What the variables of the loop say about the slots it has passed. -/
structure Chosen (done : List Proc) (b : Selection) : Prop where
  none : b.best = none → b.bestDp = 999999 ∧ ∀ p ∈ done, p.state ≠ .runnable
  some : ∀ j q, b.best = some (j, q) → b.bestDp = q.dp ∧ done[j]? = some q ∧
    q.state = .runnable ∧ ∀ i p, done[i]? = some p → p.state = .runnable → key q j ≤ key p i

namespace Chosen

variable {done : List Proc} {b : Selection} {p : Proc}

lemma nil : Chosen [] ⟨.none, 999999⟩ := ⟨by simp, by simp⟩

/-- The slots passed are those of before and the new one. -/
lemma slot_cases {i : ℕ} (h : (done ++ [p])[i]? = .some q) :
    done[i]? = .some q ∨ i = done.length ∧ q = p := by
  rw [List.getElem?_append] at h
  split_ifs at h with hi
  · exact .inl h
  · obtain ⟨hlt, rfl⟩ := List.getElem?_eq_some_iff.mp h
    have hi' : i - done.length = 0 := by simpa using hlt
    exact .inr ⟨by omega, by simp [hi']⟩

lemma slot_append {j : ℕ} (h : done[j]? = .some q) : (done ++ [p])[j]? = .some q := by
  rw [List.getElem?_append_left (List.getElem?_eq_some_iff.mp h).1]
  exact h

/-- The best process stays if it is not after the new slot in the order. -/
lemma keep (h : Chosen done b) (hnone : b.best = .none → p.state ≠ .runnable)
    (hsome : ∀ j q, b.best = .some (j, q) → p.state = .runnable →
      key q j ≤ key p done.length) : Chosen (done ++ [p]) b where
  none hb := by
    obtain ⟨hdp, hdone⟩ := h.none hb
    refine ⟨hdp, ?_⟩
    intro q hq
    rcases List.mem_append.mp hq with hq | hq
    · exact hdone q hq
    · rw [List.mem_singleton.mp hq]
      exact hnone hb
  some j q hb := by
    obtain ⟨hdp, hj, hq, hleast⟩ := h.some j q hb
    refine ⟨hdp, slot_append hj, hq, ?_⟩
    intro i r hi hr
    rcases slot_cases hi with hi | ⟨rfl, rfl⟩
    · exact hleast i r hi hr
    · exact hsome j q hb hr

/-- Against nothing, a runnable process is preferred; against an earlier slot, the smaller key. -/
lemma elegir_iff_lt (h : Chosen done b) :
    b.elegir p = true ↔ ∀ j q, b.best = .some (j, q) → key p done.length < key q j := by
  obtain ⟨best, bestDp⟩ := b
  cases best with
  | none =>
    obtain rfl : bestDp = 999999 := (h.none rfl).1
    simp [Selection.elegir, dp_lt_sentinel p]
  | some q =>
    obtain ⟨j, q⟩ := q
    obtain ⟨rfl, hj, -⟩ := h.some j q rfl
    rw [elegir_iff (List.getElem?_eq_some_iff.mp hj).1]
    constructor
    · rintro hlt _ _ ⟨⟩
      exact hlt
    · intro hlt
      exact hlt j q rfl

/-- The new slot is chosen. -/
lemma choose (h : Chosen done b) (hp : p.state = .runnable) (hlt : b.elegir p = true) :
    Chosen (done ++ [p]) ⟨.some (done.length, p), p.dp⟩ where
  none hb := by simp at hb
  some j q hb := by
    obtain ⟨rfl, rfl⟩ : done.length = j ∧ p = q := by simpa using hb
    refine ⟨rfl, by simp, hp, ?_⟩
    intro i r hi hr
    rcases slot_cases hi with hi | ⟨rfl, rfl⟩
    · -- everything of before is at least the old best, of which there is one
      cases hbest : b.best with
      | none => exact absurd hr ((h.none hbest).2 r (List.mem_of_getElem? hi))
      | some q =>
        have hq := h.elegir_iff_lt.mp hlt q.1 q.2 hbest
        exact hq.le.trans ((h.some q.1 q.2 hbest).2.2.2 i r hi hr)
    · exact le_rfl

end Chosen

/-! ### The locks of the hart -/

/-- The lock of the best process so far. -/
def locks : Option (ℕ × Proc) → Finset ℕ
  | none => ∅
  | some (j, _) => {j}

/-- The hart between two rounds of the loop. -/
structure Locked (best : Option (ℕ × Proc)) (h : Hart) : Prop where
  held : h.held = locks best
  noff : h.noff = if best.isSome then 1 else 0
  intr : h.intr = best.isNone

/-- The hart while it looks at slot `i`. -/
structure Looking (best : Option (ℕ × Proc)) (i : ℕ) (h : Hart) : Prop where
  held : h.held = insert i (locks best)
  fresh : i ∉ locks best
  noff : h.noff = if best.isSome then 2 else 1
  intr : h.intr = false
  intena : best = none → h.intena = true

section

variable {F : Panic → Prop} {best : Option (ℕ × Proc)} {i : ℕ} {h : Hart}

lemma wp_acquire (hl : Locked best h) (hi : i ∉ locks best) :
    Coroutine.wp F (acquire i) (fun _ => Looking best i) h := by
  simp only [acquire, pushOff, Coroutine.wp_bind, Coroutine.wp_modify, Coroutine.wp_get]
  rw [if_neg (by rw [hl.held]; exact hi)]
  refine ⟨by simp only [hl.held], hi, ?_, rfl, ?_⟩
  · rw [hl.noff]
    split_ifs <;> rfl
  · rintro rfl
    simp [hl.noff, hl.intr]

/-- Giving back one of two locks, or the only one. -/
lemma wp_release {k : ℕ} (hk : k ∈ h.held) (hintr : h.intr = false) (hnoff : 1 ≤ h.noff) :
    Coroutine.wp F (release k) (fun _ h' => h' = { h with
      held := h.held.erase k
      noff := h.noff - 1
      intr := decide (h.noff - 1 = 0 ∧ h.intena = true) }) h := by
  simp only [release, Coroutine.wp_bind, Coroutine.wp_get]
  rw [if_neg (not_not.mpr hk)]
  simp only [popOff, Coroutine.wp_bind, Coroutine.wp_modify, Coroutine.wp_get]
  rw [hintr, if_neg (by decide), if_neg (by omega)]
  simp only [Coroutine.wp_modify]
  split_ifs with hon <;> simp [hon]

/-- The loop goes on with the same best process. -/
lemma Looking.wp_release (hl : Looking best i h) :
    Coroutine.wp F (release i) (fun _ => Locked best) h := by
  have hnoff := hl.noff
  refine (Pass.wp_release ?_ hl.intr ?_).mono ?_
  · simp [hl.held]
  · split_ifs at hnoff <;> omega
  · rintro - _ rfl
    refine ⟨by simp [hl.held, Finset.erase_insert hl.fresh], ?_, ?_⟩
    · dsimp only
      split_ifs at hnoff ⊢ <;> omega
    · cases best with
      | none => simp [hl.noff, hl.intena rfl]
      | some q => simp [hl.noff]

/-- The loop goes on with the slot it is looking at. -/
lemma Looking.wp_releaseBest (hl : Looking best i h) (p : Proc) :
    Coroutine.wp F (releaseBest best) (fun _ => Locked (some (i, p))) h := by
  cases best with
  | none => exact ⟨hl.held, hl.noff, hl.intr⟩
  | some q =>
    obtain ⟨j, q⟩ := q
    have hij : i ≠ j := by simpa [locks] using hl.fresh
    have hnoff : h.noff = 2 := hl.noff
    refine (Pass.wp_release ?_ hl.intr ?_).mono ?_
    · simp [hl.held, locks]
    · omega
    · rintro - _ rfl
      refine ⟨?_, by simp [hnoff], by simp [hnoff]⟩
      simp only [hl.held, locks]
      rw [Finset.erase_insert_of_ne hij, Finset.erase_singleton, insert_empty_eq]

/-- The loop over the rest of the table. -/
lemma wp_selectFrom {done ps : List Proc} {b : Selection} (hb : Chosen done b)
    (hl : Locked b.best h) :
    Coroutine.wp F (selectFrom ps done.length b)
      (fun b' h' => Chosen (done ++ ps) b' ∧ Locked b'.best h') h := by
  induction ps generalizing done b h with
  | nil => exact ⟨by rwa [List.append_nil], hl⟩
  | cons p ps ih =>
    have hfresh : done.length ∉ locks b.best := by
      cases hbest : b.best with
      | none => simp [locks]
      | some q =>
        have hj := (hb.some q.1 q.2 hbest).2.1
        have hlt := (List.getElem?_eq_some_iff.mp hj).1
        simp only [locks, Finset.mem_singleton]
        omega
    -- the induction hypothesis, at the table with one more slot passed
    have hnext : ∀ {b' : Selection} {h' : Hart}, Chosen (done ++ [p]) b' → Locked b'.best h' →
        Coroutine.wp F (selectFrom ps (done.length + 1) b')
          (fun b' h' => Chosen (done ++ p :: ps) b' ∧ Locked b'.best h') h' := by
      intro b' h' hb' hl'
      have := ih hb' hl'
      rwa [List.length_append, List.length_singleton, List.append_assoc,
        List.singleton_append] at this
    rw [selectFrom, Coroutine.wp_bind]
    refine (wp_acquire hl hfresh).mono ?_
    intro _ h₁ h₁l
    split_ifs with hp he
    · rw [Coroutine.wp_bind]
      refine h₁l.wp_release.mono ?_
      intro _ h₂ h₂l
      exact hnext (hb.keep (fun _ => hp) fun _ _ _ hr => absurd hr hp) h₂l
    · rw [Coroutine.wp_bind]
      refine (h₁l.wp_releaseBest p).mono ?_
      intro _ h₂ h₂l
      exact hnext (hb.choose (not_not.mp hp) he) h₂l
    · rw [Coroutine.wp_bind]
      refine h₁l.wp_release.mono ?_
      intro _ h₂ h₂l
      rw [hb.elegir_iff_lt] at he
      push Not at he
      obtain ⟨j, q, hbest, hle⟩ := he
      refine hnext (hb.keep ?_ ?_) h₂l
      · simp [hbest]
      · intro j' q' hbest' _
        obtain ⟨rfl, rfl⟩ : j = j' ∧ q = q' := by simpa [hbest] using hbest'
        exact hle

/-- The hart between two rounds of `scheduler`. -/
structure Idle (h : Hart) : Prop where
  held : h.held = ∅
  noff : h.noff = 0

lemma wp_select {proc : List Proc} (hh : Idle h) :
    Coroutine.wp F (select proc) (fun best h' =>
      Locked best h' ∧ ∃ dp, Chosen proc ⟨best, dp⟩) h := by
  simp only [select, intrOn, Coroutine.wp_bind, Coroutine.wp_modify]
  refine (wp_selectFrom .nil ?_).mono ?_
  · exact ⟨hh.held, hh.noff, rfl⟩
  · rintro b h' ⟨hb, hl⟩
    exact ⟨hl, b.bestDp, hb⟩

/-- Every round ends as it began, whatever the tables are. -/
lemma wp_scheduler {rs : List Round} (hh : Idle h) :
    Coroutine.wp F (scheduler rs) (fun _ => Idle) h := by
  induction rs generalizing h with
  | nil => exact hh
  | cons r rs ih =>
    rw [scheduler, Coroutine.wp_bind]
    refine (wp_select hh).mono ?_
    rintro best h₁ ⟨hl, -⟩
    cases best with
    | none => exact ih ⟨hl.held, hl.noff⟩
    | some q =>
      obtain ⟨j, q⟩ := q
      have hnoff : h₁.noff = 1 := hl.noff
      simp only [Coroutine.wp_bind, Coroutine.wp_modify]
      refine (wp_release (h := { h₁ with intena := r.intena }) ?_ hl.intr hnoff.ge).mono ?_
      · simp [hl.held, locks]
      · rintro - _ rfl
        exact ih ⟨by simp [hl.held, locks], by simp [hnoff]⟩

end

/-- In every round of the scheduler, on a table of any length, one pass of the selection loop ends
without a panic. It finds nothing exactly when no process is runnable, and otherwise the runnable
process with the least key; it then holds the lock of that process and no other, one level deep and
with the interrupts off, as `sched` demands when the process switches back. -/
theorem select_best (rounds : List Round) (proc : List Proc) :
    ∃ h best h', (scheduler rounds).run boot = .ok ((), h) ∧ (select proc).run h = .ok (best, h') ∧
      (best = none ↔ ∀ p ∈ proc, p.state ≠ .runnable) ∧
      (∀ j q, best = some (j, q) → proc[j]? = some q ∧ q.state = .runnable ∧
        ∀ i p, proc[i]? = some p → p.state = .runnable → key q j ≤ key p i) ∧
      h'.held = locks best ∧ h'.noff = (if best.isSome then 1 else 0) ∧
      h'.intr = best.isNone := by
  have hboot : Coroutine.wp (fun _ => False) (scheduler rounds) _ boot := wp_scheduler ⟨rfl, rfl⟩
  obtain ⟨⟨⟩, h, hrun, hidle⟩ := hboot.exists_run
  have hselect : Coroutine.wp (fun _ => False) (select proc) _ h := wp_select hidle
  obtain ⟨best, h', hrun', hl, dp, hchosen⟩ := hselect.exists_run
  refine ⟨h, best, h', hrun, hrun', ?_, ?_, hl.held, hl.noff, hl.intr⟩
  · constructor
    · intro hbest
      exact (hchosen.none hbest).2
    · intro hnone
      cases best with
      | none => rfl
      | some q =>
        obtain ⟨-, hj, hq, -⟩ := hchosen.some q.1 q.2 rfl
        exact absurd hq (hnone q.2 (List.mem_of_getElem? hj))
  · intro j q hbest
    exact (hchosen.some j q hbest).2

end Xv6.Pass
