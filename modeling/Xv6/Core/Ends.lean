import Xv6.Core.Coroutine

/-!
# The states in which programs end

A program that fails leaves a state behind as well. `ends` is the weakest precondition in which the
failures that are allowed may depend on it.
-/

namespace Core.Coroutine

variable {σ ε ℓ α β : Type}

/-- The program on its own: its result or failure, and the state in which it ends. -/
def stop : Coroutine σ ε ℓ α → σ → Except ε α × σ
  | .ret a, s => (.ok a, s)
  | .fail e, s => (.error e, s)
  | .get k, s => (k s).stop s
  | .set s k, _ => k.stop s
  | .yield _ k, s => k.stop s

/-- From the state the program on its own returns with `Q`, or fails with `E`. -/
def ends (E : ε → σ → Prop) : Coroutine σ ε ℓ α → (α → σ → Prop) → σ → Prop
  | .ret a, Q, s => Q a s
  | .fail e, _, s => E e s
  | .get k, Q, s => ends E (k s) Q s
  | .set s k, Q, _ => ends E k Q s
  | .yield _ k, Q, s => ends E k Q s

variable {E : ε → σ → Prop} {F : ε → Prop} {Q Q' : α → σ → Prop} {s : σ} {c : Coroutine σ ε ℓ α}

/-- What the logic says about the state in which a program ends. -/
lemma ends.stop (h : ends E c Q s) :
    (∃ a, (c.stop s).1 = .ok a ∧ Q a (c.stop s).2) ∨
      ∃ e, (c.stop s).1 = .error e ∧ E e (c.stop s).2 := by
  induction c generalizing s with
  | ret a => exact .inl ⟨a, rfl, h⟩
  | fail e => exact .inr ⟨e, rfl, h⟩
  | get k ih => exact ih s h
  | set s₁ k ih => exact ih h
  | yield l k ih => exact ih h

/-- What is known of the result of a program can be used. -/
lemma ends.of_wp (h : wp F c Q s) (h' : ends E c (fun a s' => Q a s' → Q' a s') s) :
    ends E c Q' s := by
  induction c generalizing s with
  | ret a => exact h' h
  | fail e => exact h'
  | get k ih => exact ih s h h'
  | set s₁ k ih => exact ih h h'
  | yield l k ih => exact ih h h'

/-! ### Rules for the commands -/

@[simp]
lemma ends_pure {a : α} : ends E (pure a : Coroutine σ ε ℓ α) Q s ↔ Q a s := Iff.rfl

@[simp]
lemma ends_get {Q : σ → σ → Prop} : ends E (MonadState.get : Coroutine σ ε ℓ σ) Q s ↔ Q s s :=
  Iff.rfl

@[simp]
lemma ends_pause {l : ℓ} {Q : PUnit → σ → Prop} :
    ends E (pause l : Coroutine σ ε ℓ PUnit) Q s ↔ Q ⟨⟩ s := Iff.rfl

@[simp]
lemma ends_bind {f : α → Coroutine σ ε ℓ β} {Q : β → σ → Prop} :
    ends E (c >>= f) Q s ↔ ends E c (fun a => ends E (f a) Q) s := by
  induction c generalizing s with
  | ret a => exact Iff.rfl
  | fail e => exact Iff.rfl
  | get k ih => exact ih s
  | set s₁ k ih => exact ih
  | yield l k ih => exact ih

lemma ends_ite {p : Prop} [Decidable p] {c c' : Coroutine σ ε ℓ α}
    (h : p → ends E c Q s) (h' : ¬p → ends E c' Q s) : ends E (if p then c else c') Q s := by
  split
  · exact h ‹p›
  · exact h' ‹¬p›

end Core.Coroutine
