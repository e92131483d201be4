import Mathlib
import Xv6.Spinlock.Basic

/-!
# Nested sections with interrupts off

`Ready` follows the rest of a call to its end, where `noff` is the number of open calls and the
interrupt enable bit is the one that the thread started with, kept in `intena` while calls are
open. It allows for an interrupt before every step: as long as interrupts are on, the handler may
leave any value in `intena`.
-/

namespace Xv6.Spinlock

open Core

/-! ### One hart -/

/-- Interrupts are off whenever `noff` is not zero. -/
structure Hart.Safe (h : Hart) : Prop where
  nonneg : 0 ≤ h.noff
  off : 0 < h.noff → h.sie = false

/-- A hart between two calls, when `d` calls are open and interrupts had been `b` before them. -/
structure Hart.Settled (b : Bool) (d : ℕ) (h : Hart) : Prop where
  noff : h.noff = d
  closed : d = 0 → h.sie = b
  opened : 0 < d → h.sie = false ∧ h.intena = b

/-- The steps `os` can all be made from here, and settle the hart. -/
def Ready (b : Bool) (d : ℕ) : List Op → Hart → Prop
  | [], h => h.Settled b d
  | o :: os, h => h.Safe ∧ ∀ intena, h.sie = true ∨ intena = h.intena →
      ∃ h', o.exec { h with intena := intena } = .ok h' ∧ Ready b d os h'

section

variable {b : Bool} {d : ℕ} {os : List Op} {h : Hart}

lemma Hart.Settled.safe (hs : h.Settled b d) : h.Safe := by
  refine ⟨by simp [hs.noff], fun hpos => (hs.opened ?_).1⟩
  rw [hs.noff] at hpos
  omega

lemma Ready.safe (hr : Ready b d os h) : h.Safe := by
  cases os with
  | nil => exact Hart.Settled.safe hr
  | cons o os => exact hr.1

lemma Ready.exec {o : Op} (hr : Ready b d (o :: os) h) :
    ∃ h', o.exec h = .ok h' ∧ Ready b d os h' :=
  hr.2 h.intena (.inr rfl)

lemma Hart.Safe.noff_eq_zero (hs : h.Safe) (hsie : h.sie = true) : h.noff = 0 := by
  have hnonneg := hs.nonneg
  have hoff := hs.off
  simp only [hsie, Bool.true_eq_false, imp_false] at hoff
  omega

/-- A handler that runs before the next step may change `intena`. -/
lemma Ready.interrupted (hr : Ready b d os h) (hsie : h.sie = true) (intena : Bool) :
    Ready b d os ⟨0, intena, true, h.old⟩ := by
  have hnoff := hr.safe.noff_eq_zero hsie
  obtain ⟨noff, intena', sie, old⟩ := h
  dsimp only at hsie hnoff
  subst hsie hnoff
  cases os with
  | nil =>
    have hd : d = 0 := by simpa using hr.noff.symm
    exact ⟨by simp [hd], hr.closed, by omega⟩
  | cons o os => exact ⟨⟨by simp, by simp⟩, fun x _ => hr.2 x (.inl rfl)⟩

/-- With interrupts off, a step is made from the hart as it is. -/
lemma Ready.cons {h' : Hart} {o : Op} (hr : Ready b d os h') (hsie : h.sie = false)
    (hnoff : 0 ≤ h.noff) (hexec : o.exec h = .ok h') : Ready b d (o :: os) h := by
  refine ⟨⟨hnoff, fun _ => hsie⟩, fun intena hintena => ⟨h', ?_, hr⟩⟩
  obtain rfl : intena = h.intena := by simpa [hsie] using hintena
  exact hexec

lemma Hart.Settled.ready_pushOff (hs : h.Settled b d) : Ready b (d + 1) pushOff h := by
  obtain ⟨noff, intena, sie, old⟩ := h
  have hnoff : noff = d := hs.noff
  subst hnoff
  have hsafe : ∀ x y, Hart.Safe ⟨d, x, sie, y⟩ := fun _ _ => ⟨hs.safe.nonneg, hs.safe.off⟩
  -- interrupts may come before each of the first two steps
  refine ⟨hsafe _ _, fun x hx => ⟨_, rfl, hsafe _ _, fun y hy => ⟨_, rfl, ?_⟩⟩⟩
  have hsaved : (if (d : ℤ) = 0 then sie else y) = b := by
    split_ifs with hd
    · exact hs.closed (by simpa using hd)
    · obtain ⟨hsie, hintena⟩ := hs.opened (by omega)
      dsimp only at hsie hintena hx hy
      simp_all
  have hend : Ready b (d + 1) [] ⟨d + 1, b, false, sie⟩ :=
    ⟨by simp, by simp, fun _ => ⟨rfl, rfl⟩⟩
  refine (hend.cons (h := ⟨d, b, false, sie⟩) rfl (by simp) rfl).cons rfl (by simp) ?_
  simp only [Op.exec, hsaved]

lemma Hart.Settled.ready_popOff (hs : h.Settled b (d + 1)) : Ready b d popOff h := by
  obtain ⟨noff, intena, sie, old⟩ := h
  have hnoff : noff = d + 1 := by simpa using hs.noff
  obtain ⟨hsie, hintena⟩ := hs.opened (by omega)
  dsimp only at hsie hintena
  subst hnoff hsie hintena
  have hend : Ready intena d [] ⟨d, intena, if (d : ℤ) = 0 ∧ intena then true else false, old⟩ := by
    refine ⟨rfl, ?_, fun hd => ⟨if_neg ?_, rfl⟩⟩
    · rintro rfl
      simp
    · omega
  have hon := hend.cons (h := ⟨d, intena, false, old⟩) (o := .intrOn) rfl (by simp) ?_
  · refine ((hon.cons (h := ⟨d + 1, intena, false, old⟩) rfl ?_ ?_).cons rfl ?_ ?_).cons rfl ?_ rfl
    · dsimp only
      omega
    · simp [Op.exec]
    · dsimp only
      omega
    · rw [Op.exec, if_neg (by dsimp only; omega)]
    · dsimp only
      omega
  · simp only [Op.exec]
    split_ifs <;> rfl

end

/-! ### The steps of a call -/

section

variable {H K : Type*}

def Instr.op? : Instr K → Option Op
  | .op o => some o
  | .lock _ _ => none

/-- The steps of a call that concern interrupts. -/
def ops (todo : List (Instr K)) : List Op := todo.filterMap Instr.op?

lemma Call.ops_code (c : Call K) :
    ops c.code = if c.opens then Spinlock.pushOff else Spinlock.popOff := by
  cases c <;> rfl

/-- The account of a thread is right about its hart. -/
def Thread.Ready (t : Thread K) (h : Hart) : Prop :=
  Spinlock.Ready t.before t.depth (ops t.todo) h

/-- A hart is right with its thread, and with the threads it has interrupted. -/
structure Cpu.Good (c : Cpu K) : Prop where
  thread : c.thread.Ready c.hart
  trap : ∀ f ∈ c.trap, ∀ intena, f.2.Ready ⟨0, intena, true, f.1⟩

lemma Thread.Ready.call {t : Thread K} {h : Hart} (hr : t.Ready h) (htodo : t.todo = [])
    {c : Call K} (hc : c.opens ∨ 0 < t.depth) : (t.call c h.sie).Ready h := by
  have hs : h.Settled t.before t.depth := by
    rw [Thread.Ready, htodo] at hr
    exact hr
  have hbefore : (if t.depth = 0 then h.sie else t.before) = t.before := by
    split_ifs with hd
    · exact hs.closed hd
    · rfl
  simp only [Thread.Ready, Thread.call, hbefore, Call.ops_code]
  split_ifs with ho
  · exact hs.ready_pushOff
  · obtain ⟨d, hd⟩ := Nat.exists_eq_add_of_le (hc.resolve_left ho)
    rw [hd, Nat.add_comm] at hs ⊢
    exact hs.ready_popOff

variable {c : Cpu K}

/-- A step of a call that concerns interrupts does not panic. -/
lemma Cpu.Good.exec (hc : c.Good) {o : Op} {rest : List (Instr K)}
    (htodo : c.thread.todo = .op o :: rest) :
    ∃ h, o.exec c.hart = .ok h ∧ (c.next h rest).Good := by
  have hr := hc.thread
  simp only [Thread.Ready, htodo] at hr
  obtain ⟨h, hexec, hready⟩ := Ready.exec hr
  exact ⟨h, hexec, hready, hc.trap⟩

/-- A step of a call that concerns a lock changes nothing else. -/
lemma Cpu.Good.lock (hc : c.Good) {k : K} {o : LockOp} {rest : List (Instr K)}
    (htodo : c.thread.todo = .lock k o :: rest) : (c.next c.hart rest).Good := by
  have hr := hc.thread
  simp only [Thread.Ready, htodo] at hr
  exact ⟨hr, hc.trap⟩

lemma Cpu.Good.interrupt (hc : c.Good) (hsie : c.hart.sie = true) :
    Cpu.Good ⟨{ c.hart with sie := false }, ⟨[], 0, false⟩, (c.hart.old, c.thread) :: c.trap⟩ := by
  have hnoff := hc.thread.safe.noff_eq_zero hsie
  refine ⟨⟨by simpa using hnoff, fun _ => rfl, by simp⟩, ?_⟩
  rw [List.forall_mem_cons]
  exact ⟨hc.thread.interrupted hsie, hc.trap⟩

lemma Cpu.Good.sret (hc : c.Good) {old : Bool} {t : Thread K} {trap : List (Bool × Thread K)}
    (htrap : c.trap = (old, t) :: trap) (htodo : c.thread.todo = []) (hdepth : c.thread.depth = 0) :
    Cpu.Good ⟨{ c.hart with sie := true, old := old }, t, trap⟩ := by
  have hnoff : c.hart.noff = 0 := by
    have hr := hc.thread
    simp only [Thread.Ready, htodo, hdepth] at hr
    simpa using hr.noff
  have hframes := hc.trap
  rw [htrap, List.forall_mem_cons] at hframes
  refine ⟨?_, hframes.2⟩
  dsimp only
  rw [hnoff]
  exact hframes.1 c.hart.intena

/-! ### All the harts -/

variable [DecidableEq H] {s s' : State H K} {e : Event H K}

lemma good_setCpu (hs : ∀ i, (s.cpu i).Good) {i : H} (hc : c.Good) (j : H) :
    ((s.setCpu i c).cpu j).Good := by
  rw [State.setCpu]
  rcases eq_or_ne j i with rfl | hj
  · simpa using hc
  · simpa [hj] using hs j

variable [DecidableEq K]

/-- The step lemma. -/
lemma good_step (hs : ∀ i, (s.cpu i).Good) (he : Balanced s e) (hstep : s.step e = some (.ok s')) :
    ∀ i, (s'.cpu i).Good := by
  cases e with
  | call i c =>
    simp only [State.step] at hstep
    split at hstep
    · next htodo =>
      cases hstep
      exact good_setCpu hs ⟨(hs i).thread.call htodo he, (hs i).trap⟩
    · cases hstep
  | step i =>
    simp only [State.step] at hstep
    split at hstep
    · cases hstep
    · next ins rest htodo =>
      cases ins with
      | op o =>
        obtain ⟨h, hexec, hgood⟩ := (hs i).exec htodo
        simp only [State.exec, hexec, Option.some.injEq, Except.ok.injEq] at hstep
        subst hstep
        exact good_setCpu hs hgood
      | lock k o =>
        simp only [State.exec, Option.some.injEq] at hstep
        split at hstep
        · cases hstep
        · cases hstep
          exact hs
        · cases hstep
          exact good_setCpu hs ((hs i).lock htodo)
  | interrupt i =>
    simp only [State.step] at hstep
    split_ifs at hstep with hsie
    cases hstep
    exact good_setCpu hs ((hs i).interrupt hsie)
  | sret i =>
    simp only [State.step] at hstep
    split at hstep
    · next htrap htodo =>
      cases hstep
      exact good_setCpu hs ((hs i).sret htrap htodo he)
    · cases hstep

/-- The run lemma. -/
lemma good_of_reachableBy (hs : (machine H K).ReachableBy Balanced s) : ∀ i, (s.cpu i).Good := by
  refine hs.invariant (I := fun s => ∀ i, (s.cpu i).Good) (fun s hinit i => ?_) ?_
  · obtain ⟨hnoff, hthread, htrap⟩ := hinit i
    refine ⟨?_, by simp [htrap]⟩
    rw [Thread.Ready, hthread]
    exact ⟨by simpa using hnoff, fun _ => rfl, by simp⟩
  · intro s e s' hs he hnext
    exact good_step hs he (Machine.ofStep_next.mp hnext)

omit [DecidableEq K] in
lemma LockOp.eq_of_exec {i : H} {o : LockOp} {lk : Lock H} {x : Panic}
    (hexec : o.exec i lk = .error x) : x = .acquire ∨ x = .release := by
  cases o <;> simp only [LockOp.exec] at hexec <;> (try split at hexec) <;> cases hexec
  · exact .inl rfl
  · exact .inr rfl

/-- Only the steps on locks can panic. -/
lemma step_ne_error (hs : ∀ i, (s.cpu i).Good) {x : Panic} (hacquire : x ≠ .acquire)
    (hrelease : x ≠ .release) : s.step e ≠ some (.error x) := by
  intro hstep
  cases e with
  | call i c =>
    simp only [State.step] at hstep
    split at hstep <;> cases hstep
  | step i =>
    simp only [State.step] at hstep
    split at hstep
    · cases hstep
    · next ins rest htodo =>
      cases ins with
      | op o =>
        obtain ⟨h, hexec, -⟩ := (hs i).exec htodo
        simp [State.exec, hexec] at hstep
      | lock k o =>
        simp only [State.exec, Option.some.injEq] at hstep
        split at hstep
        · next y hy =>
          cases hstep
          exact (LockOp.eq_of_exec hy).elim hacquire hrelease
        · cases hstep
        · cases hstep
  | interrupt i =>
    simp only [State.step] at hstep
    split_ifs at hstep
    cases hstep
  | sret i =>
    simp only [State.step] at hstep
    split at hstep <;> cases hstep

/-- On every hart, whatever the others do, along balanced calls of `push_off`, `pop_off`, `acquire`
and `release` with interrupts in between: interrupts are off as long as `noff` is not zero, `noff`
is the number of calls that are open, when it is zero interrupts are as they were before the first
call of the nest, and `pop_off` does not panic. -/
theorem nesting_restores_interrupts (hs : (machine H K).ReachableBy Balanced s) (i : H) :
    (0 < (s.cpu i).hart.noff → (s.cpu i).hart.sie = false) ∧
    ((s.cpu i).thread.todo = [] → (s.cpu i).hart.noff = (s.cpu i).thread.depth) ∧
    ((s.cpu i).thread.todo = [] → (s.cpu i).hart.noff = 0 →
      (s.cpu i).hart.sie = (s.cpu i).thread.before) ∧
    ∀ e, s.step e ≠ some (.error .popOffInterruptible) ∧ s.step e ≠ some (.error .popOff) := by
  have hgood := good_of_reachableBy hs
  have hsettled : (s.cpu i).thread.todo = [] →
      (s.cpu i).hart.Settled (s.cpu i).thread.before (s.cpu i).thread.depth := by
    intro htodo
    have hr := (hgood i).thread
    rw [Thread.Ready, htodo] at hr
    exact hr
  refine ⟨(hgood i).thread.safe.off, fun htodo => (hsettled htodo).noff, fun htodo hnoff => ?_,
    fun e => ⟨step_ne_error hgood (by decide) (by decide),
      step_ne_error hgood (by decide) (by decide)⟩⟩
  refine (hsettled htodo).closed ?_
  rw [(hsettled htodo).noff] at hnoff
  omega

/-- A hart with interrupts on takes two locks, the second after an interrupt inside `push_off`, and
gives the first one back first. -/
def handOver : List (Event Unit Bool) :=
  .call () (.acquire false) :: .step () :: .interrupt () :: .sret () ::
    List.replicate 6 (.step ()) ++
  .call () (.acquire true) :: List.replicate 7 (.step ()) ++
  .call () (.release false) :: List.replicate 7 (.step ())

/-- One hart with interrupts on, and two locks. -/
def unlocked : State Unit Bool where
  cpu _ := ⟨⟨0, false, true, false⟩, ⟨[], 0, true⟩, []⟩
  lock _ := ⟨false, none⟩

theorem nesting_restores_interrupts_handOver :
    ∃ s, (machine Unit Bool).ReachableBy Balanced s ∧ (s.lock true).locked = true ∧
      (s.cpu ()).thread.before = true ∧ (s.cpu ()).hart.noff = 1 ∧ (s.cpu ()).hart.sie = false := by
  have hs : (machine Unit Bool).ReachableBy Balanced
      (((machine Unit Bool).execBy Balanced unlocked handOver).getD unlocked) :=
    .getD_execBy (fun _ => ⟨rfl, rfl, rfl⟩) (by decide +kernel)
  refine ⟨_, hs, by decide +kernel, by decide +kernel, by decide +kernel, ?_⟩
  exact (nesting_restores_interrupts hs ()).1 (by decide +kernel)

end

end Xv6.Spinlock
