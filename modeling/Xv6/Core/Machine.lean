import Mathlib.Logic.Relation

/-!
# Machines

A machine is a deterministic transition function whose nondeterminism has been moved into its
events: `next s e` is the state after the event `e`, or `none` when `e` cannot happen in `s`.
Interleavings of several actors are the sequences of events that mention different actors.
-/

namespace Core

-- named, so that the processes of two sample runs are the same terms
instance (priority := 2000) neZero_two : @NeZero Nat Zero.ofOfNat0 2 := ⟨by decide⟩
instance (priority := 2000) neZero_three : @NeZero Nat Zero.ofOfNat0 3 := ⟨by decide⟩

/-- A transition system with initial states `init` and partial steps `next`. -/
structure Machine (σ ε : Type*) where
  init : σ → Prop
  next : σ → ε → Option σ

namespace Machine

variable {σ ε : Type*} (M : Machine σ ε)

/-- The states some sequence of events leads to. -/
inductive Reachable : σ → Prop
  | init {s : σ} : M.init s → Reachable s
  | next {s s' : σ} {e : ε} : Reachable s → M.next s e = some s' → Reachable s'

/-- The states that sequences of events lead to along which the condition `C` holds. -/
inductive ReachableBy (C : σ → ε → Prop) : σ → Prop
  | init {s : σ} : M.init s → ReachableBy C s
  | next {s s' : σ} {e : ε} : ReachableBy C s → C s e → M.next s e = some s' → ReachableBy C s'

/-- `M.Run s es s'`: the events `es` happen in this order from `s` and lead to `s'`. -/
inductive Run (s : σ) : List ε → σ → Prop
  | nil : Run s [] s
  | snoc {s' s'' : σ} {es : List ε} {e : ε} :
      Run s es s' → M.next s' e = some s'' → Run s (es ++ [e]) s''

/-- Feed a list of events to the machine; `none` as soon as one of them cannot happen. -/
def exec : σ → List ε → Option σ
  | s, [] => some s
  | s, e :: es => (M.next s e).bind fun s' => exec s' es

/-- The same for events that meet the condition `C`. -/
def execBy (C : σ → ε → Prop) [∀ s e, Decidable (C s e)] : σ → List ε → Option σ
  | s, [] => some s
  | s, e :: es => if C s e then (M.next s e).bind fun s' => execBy C s' es else none

variable {M} {I : σ → Prop} {s s' : σ} {C : σ → ε → Prop} {es : List ε}

/-- The invariant rule. -/
theorem Reachable.invariant (hinit : ∀ s, M.init s → I s)
    (hnext : ∀ s e s', I s → M.next s e = some s' → I s') (h : M.Reachable s) : I s := by
  induction h with
  | init h => exact hinit _ h
  | next _ hn ih => exact hnext _ _ _ ih hn

/-- The invariant rule along runs that meet a condition. -/
theorem ReachableBy.invariant (hinit : ∀ s, M.init s → I s)
    (hnext : ∀ s e s', I s → C s e → M.next s e = some s' → I s') (h : M.ReachableBy C s) :
    I s := by
  induction h with
  | init h => exact hinit _ h
  | next _ hc hn ih => exact hnext _ _ _ ih hc hn

/-- The invariant rule for a state predicate that is inductive only together with an
invariant `J` already known. -/
theorem Reachable.invariant_of {J : σ → Prop} (hJ : ∀ s, M.Reachable s → J s)
    (hinit : ∀ s, M.init s → I s) (hnext : ∀ s e s', J s → I s → M.next s e = some s' → I s')
    (h : M.Reachable s) : I s := by
  induction h with
  | init h => exact hinit _ h
  | next hr hn ih => exact hnext _ _ _ (hJ _ hr) ih hn

lemma Run.reachable (hs : M.Reachable s) (h : M.Run s es s') : M.Reachable s' := by
  induction h with
  | nil => exact hs
  | snoc _ hn ih => exact .next ih hn

lemma Run.of_exec (h : M.exec s es = some s') : M.Run s es s' := by
  -- the run is built from the left: the events already fed are carried along
  suffices ∀ (es : List ε) (t s' : σ) (pre : List ε), M.Run s pre t → M.exec t es = some s' →
      M.Run s (pre ++ es) s' by
    simpa using this es s s' [] .nil h
  intro es
  induction es with
  | nil =>
    intro t s' pre hpre h
    simp only [exec, Option.some.injEq] at h
    subst h
    simpa using hpre
  | cons e es ih =>
    intro t s' pre hpre h
    simp only [exec, Option.bind_eq_some_iff] at h
    obtain ⟨u, hu, hrest⟩ := h
    simpa using ih u s' (pre ++ [e]) (.snoc hpre hu) hrest

lemma Reachable.of_exec (hs : M.init s) (h : M.exec s es = some s') : M.Reachable s' :=
  (Run.of_exec h).reachable (.init hs)

lemma Reachable.getD_exec {d : σ} (hs : M.init s) (h : (M.exec s es).isSome) :
    M.Reachable ((M.exec s es).getD d) := by
  obtain ⟨s', hs'⟩ := Option.isSome_iff_exists.mp h
  rw [hs']
  exact .of_exec hs hs'

lemma ReachableBy.of_execBy [∀ s e, Decidable (C s e)] (hs : M.ReachableBy C s)
    (h : M.execBy C s es = some s') : M.ReachableBy C s' := by
  induction es generalizing s with
  | nil =>
    simp only [execBy, Option.some.injEq] at h
    exact h ▸ hs
  | cons e es ih =>
    simp only [execBy, Option.ite_none_right_eq_some, Option.bind_eq_some_iff] at h
    obtain ⟨hC, t, ht, hrest⟩ := h
    exact ih (.next hs hC ht) hrest

lemma ReachableBy.getD_execBy [∀ s e, Decidable (C s e)] {d : σ} (hs : M.init s)
    (h : (M.execBy C s es).isSome) : M.ReachableBy C ((M.execBy C s es).getD d) := by
  obtain ⟨s', hs'⟩ := Option.isSome_iff_exists.mp h
  rw [hs']
  exact .of_execBy (.init hs) hs'

end Machine

/-! ### Steps that may fail

A step can also end the run with a failure in `π`. Events that cannot happen in the current state
are passed over. -/

section Failing

variable {σ ε π : Type*} (step : σ → ε → Option (Except π σ))

/-- The machine of the steps that do not fail. -/
def Machine.ofStep (init : σ → Prop) : Machine σ ε where
  init := init
  next s e := (step s e).bind Except.toOption

/-- The condition `φ` holds at every event of the run, up to the first failure. -/
def Along (φ : σ → ε → Prop) : σ → List ε → Prop
  | _, [] => True
  | s, e :: es => φ s e ∧
    match step s e with
    | none => Along φ s es
    | some (.ok s') => Along φ s' es
    | some (.error _) => True

instance Along.decidable (φ : σ → ε → Prop) [∀ s e, Decidable (φ s e)] :
    ∀ (s : σ) (es : List ε), Decidable (Along step φ s es)
  | _, [] => .isTrue trivial
  | s, e :: es =>
    match h : step s e with
    | none =>
      have := Along.decidable φ s es
      decidable_of_iff (φ s e ∧ Along step φ s es) (by simp [Along, h])
    | some (.ok s') =>
      have := Along.decidable φ s' es
      decidable_of_iff (φ s e ∧ Along step φ s' es) (by simp [Along, h])
    | some (.error _) => decidable_of_iff (φ s e) (by simp [Along, h])

variable {step} {I : σ → Prop} {s s' : σ}

lemma Machine.ofStep_next {init : σ → Prop} {e : ε} :
    (Machine.ofStep step init).next s e = some s' ↔ step s e = some (.ok s') := by
  cases h : step s e with
  | none => simp [Machine.ofStep, h]
  | some r => cases r <;> simp [Machine.ofStep, h, Except.toOption]

end Failing

end Core
