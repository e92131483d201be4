import Xv6.Sched.Sound

/-!
# The protocol of exit and wait

What becomes of a process that exits: its parent, or init, learns its status, exactly once, and only
when the process has left the hart.
-/

namespace Xv6.Sched

open Core

variable {H : Type}

/-- The process that a record is about. -/
def Record.slot : Record → Fin NPROC
  | .exited p _ => p
  | .reaped child _ _ => child

/-- What holds of exit and wait in a state of the machine and in the steps from it. -/
structure Protocol [DecidableEq H] (c : Conf (sig H)) : Prop where
  /-- Before a process was reaped, the last that happened to it was that it exited with this
  status. -/
  reaped_exited : ∀ new child parent status old,
    c.state.hist = new ++ .reaped child parent status :: old →
      ∃ mid old', old = mid ++ .exited child status :: old' ∧ ∀ r ∈ mid, r.slot ≠ child
  /-- A process becomes a zombie by its own exit, which is recorded with its status. -/
  exits : ∀ e c' i, (machine H).next c e = some c' → (c.state.slot i).state ≠ .zombie →
    (c'.state.slot i).state = .zombie → e.1 = .proc i ∧
      c'.state.hist = .exited i (c'.state.slot i).xstate :: c.state.hist
  /-- A zombie is reaped by its parent, which gets its status. By then it has left the hart, and its
  slot becomes `UNUSED`. -/
  reaps : ∀ e c' i, (machine H).next c e = some c' → (c.state.slot i).state = .zombie →
    (c'.state.slot i).state ≠ .zombie → ∃ q, e.1 = .proc q ∧ (c.state.slot i).parent = some q ∧
      c'.state.hist = .reaped i q (c.state.slot i).xstate :: c.state.hist ∧
      OffCpu c.state i ∧ (c'.state.slot i).state = .unused
  /-- Only exits and reapings of zombies by their parents are recorded. -/
  recorded : ∀ e c', (machine H).next c e = some c' → c'.state.hist = c.state.hist ∨
    ∃ r, c'.state.hist = r :: c.state.hist ∧
      ((c.state.slot r.slot).state = .zombie ↔ (c'.state.slot r.slot).state ≠ .zombie)
  /-- While `wait_lock` is free, the parent of a process is neither `UNUSED` nor a zombie. -/
  parent_alive : c.owner .wait = none → ∀ i, (c.state.slot i).state ≠ .unused →
    (c.state.slot i).state ≠ .used → i ≠ c.state.initproc → ∃ q, (c.state.slot i).parent = some q ∧
      (c.state.slot q).state ≠ .unused ∧ (c.state.slot q).state ≠ .zombie
  /-- While `wait_lock` is free, nobody sleeps in `wait` who has a zombie to reap. -/
  not_sleeping : c.owner .wait = none → ∀ q i, (c.state.slot q).state = .sleeping →
    (c.state.slot q).chan = .proc q → (c.state.slot i).parent = some q →
      (c.state.slot i).state ≠ .zombie

/-! ### The history -/

lemma Matched.of_append {new old : List Record} (h : Matched (new ++ old)) : Matched old := by
  induction new with
  | nil => exact h
  | cons r new ih =>
    cases r with
    | exited p st => exact ih h
    | reaped child q st => exact ih h.2

/-! ### One step -/

section

variable [DecidableEq H] {t : Thread H} {Hs : Set Lock} {s s' : State H} {i : Fin NPROC}

lemma Act.exits (h : Act t Hs s s') (hi : (s.slot i).state ≠ .zombie)
    (hi' : (s'.slot i).state = .zombie) :
    t = .proc i ∧ s'.hist = .exited i (s'.slot i).xstate :: s.hist := by
  cases h with
  | slot j x e hact =>
    have hij : i = j := by
      by_contra hij
      simp [hij, hi] at hi'
    subst hij
    simp only [apply_slot, setSlot_slot, Function.update_self] at hi' ⊢
    cases hact with
    | exit status p' ht _ _ _ _ _ hx => exact ⟨ht, by simp [Effect.apply, hx]⟩
    | calm p' hl hcalm =>
      obtain hst | ⟨-, hst⟩ := hcalm.state
      · exact absurd (hst.symm.trans hi') hi
      · simp [hst] at hi'
    | _ => simp_all
  | _ => exact absurd hi' hi

lemma Act.reaps (h : Act t Hs s s') (hs : Inv s) (hi : (s.slot i).state = .zombie)
    (hi' : (s'.slot i).state ≠ .zombie) :
    ∃ q, t = .proc q ∧ (s.slot i).parent = some q ∧
      s'.hist = .reaped i q (s.slot i).xstate :: s.hist ∧ OffCpu s i ∧
      (s'.slot i).state = .unused := by
  cases h with
  | slot j x e hact =>
    have hij : i = j := by
      by_contra hij
      simp [hij, hi] at hi'
    subst hij
    have hused := (hs.wellFormed i).used_iff
    simp only [apply_slot, setSlot_slot, Function.update_self] at hi' ⊢
    cases hact with
    | reap q p' ht _ _ _ hpar hoff hst' => exact ⟨q, ht, hpar, rfl, hoff, hst'⟩
    | calm p' hl hcalm =>
      obtain hst | ⟨hst, -⟩ := hcalm.state
      · exact absurd (hst.trans hi) hi'
      · simp [hst] at hi
    | _ => simp_all
  | _ => exact absurd hi hi'

lemma Act.recorded (h : Act t Hs s s') : s'.hist = s.hist ∨ ∃ r, s'.hist = r :: s.hist ∧
    ((s.slot r.slot).state = .zombie ↔ (s'.slot r.slot).state ≠ .zombie) := by
  cases h with
  | slot j x e hact =>
    cases hact with
    | exit status p' _ _ _ hst _ hst' =>
      exact .inr ⟨_, rfl, by simp [Record.slot, hst, hst']⟩
    | reap q p' _ _ _ hst _ _ hst' =>
      exact .inr ⟨_, rfl, by simp [Record.slot, hst, hst']⟩
    | _ => exact .inl rfl
  | _ => exact .inl rfl

end

/-! ### All states -/

/-- Init, on the only hart, has just forked. -/
def forked : Conf (sig Unit) :=
  ((machine Unit).exec (boot 0) (List.replicate 196 (.sched (), .intr []) ++
    List.replicate 6 (.proc 0, .call .fork) ++ List.replicate 23 (.proc 0, .flag true))).get
      (by decide +kernel)

end Xv6.Sched
