import Mathlib.Data.List.Basic

/-!
# Coroutines

Programs over a state `σ` that return or stop with a failure in `ε`. A program names the points at
which others may run, by labels in `ℓ`; what it does between two such points is one action. Run on
its own, a program passes over its labels: this is the meaning that `run` gives and that the weakest
preconditions of this file are about. The failures that may happen are a parameter of the logic, so
that "returns in such a state" and "never fails in this way" are proved together, and no step has to
be split on failure.
-/

namespace Core

/-- Programs over a state `σ` with results in `α`. -/
inductive Coroutine (σ ε ℓ α : Type)
  | ret (a : α)
  | fail (e : ε)
  | get (k : σ → Coroutine σ ε ℓ α)
  | set (s : σ) (k : Coroutine σ ε ℓ α)
  /-- Others may run. -/
  | yield (l : ℓ) (k : Coroutine σ ε ℓ α)

namespace Coroutine

variable {σ ε ℓ α β : Type}

/-- Sequential composition. -/
def bind : Coroutine σ ε ℓ α → (α → Coroutine σ ε ℓ β) → Coroutine σ ε ℓ β
  | .ret a, f => f a
  | .fail e, _ => .fail e
  | .get k, f => .get fun s => (k s).bind f
  | .set s k, f => .set s (k.bind f)
  | .yield l k, f => .yield l (k.bind f)

instance : Monad (Coroutine σ ε ℓ) where
  pure := .ret
  bind := bind

lemma bind_ret (c : Coroutine σ ε ℓ α) : c.bind .ret = c := by
  induction c with
  | ret a => rfl
  | fail e => rfl
  | get k ih => exact congrArg Coroutine.get (funext ih)
  | set s k ih => exact congrArg (Coroutine.set s) ih
  | yield l k ih => exact congrArg (Coroutine.yield l) ih

lemma bind_bind {γ : Type} (c : Coroutine σ ε ℓ α) (f : α → Coroutine σ ε ℓ β)
    (g : β → Coroutine σ ε ℓ γ) : (c.bind f).bind g = c.bind fun a => (f a).bind g := by
  induction c with
  | ret a => rfl
  | fail e => rfl
  | get k ih => exact congrArg Coroutine.get (funext ih)
  | set s k ih => exact congrArg (Coroutine.set s) ih
  | yield l k ih => exact congrArg (Coroutine.yield l) ih

instance : LawfulMonad (Coroutine σ ε ℓ) :=
  LawfulMonad.mk' _ bind_ret (fun _ _ => rfl) bind_bind

instance : MonadStateOf σ (Coroutine σ ε ℓ) where
  get := .get .ret
  set s := .set s (.ret ⟨⟩)
  modifyGet f := .get fun s => .set (f s).2 (.ret (f s).1)

/-- Let others run. -/
def pause (l : ℓ) : Coroutine σ ε ℓ PUnit := .yield l (.ret ⟨⟩)

/-- The program on its own: its result and the final state, or its failure. -/
def run : Coroutine σ ε ℓ α → σ → Except ε (α × σ)
  | .ret a, s => .ok (a, s)
  | .fail e, _ => .error e
  | .get k, s => (k s).run s
  | .set s k, _ => k.run s
  | .yield _ k, s => k.run s

/-- From the state the program on its own returns with `Q`, or fails in a way that `F` allows. -/
def wp (F : ε → Prop) : Coroutine σ ε ℓ α → (α → σ → Prop) → σ → Prop
  | .ret a, Q, s => Q a s
  | .fail e, _, _ => F e
  | .get k, Q, s => wp F (k s) Q s
  | .set s k, Q, _ => wp F k Q s
  | .yield _ k, Q, s => wp F k Q s

/-- A program on a part of a state, which `get` reads and `put` writes. -/
def zoom {τ ε' : Type} (get : τ → σ) (put : σ → τ → τ) (fail : ε → ε') :
    Coroutine σ ε ℓ α → Coroutine τ ε' ℓ α
  | .ret a => .ret a
  | .fail e => .fail (fail e)
  | .get k => .get fun t => (k (get t)).zoom get put fail
  | .set s k => .get fun t => .set (put s t) (k.zoom get put fail)
  | .yield l k => .yield l (k.zoom get put fail)

variable {F : ε → Prop} {Q Q' : α → σ → Prop} {s s' : σ} {c : Coroutine σ ε ℓ α}

/-- What the logic says about a run that returned. -/
lemma wp.returns {a : α} (h : wp F c Q s) (hc : c.run s = .ok (a, s')) : Q a s' := by
  induction c generalizing s with
  | ret b =>
    cases hc
    exact h
  | fail e => cases hc
  | get k ih => exact ih s h hc
  | set s₁ k ih => exact ih h hc
  | yield l k ih => exact ih h hc

/-- What the logic says about a run that failed. -/
lemma wp.fails {e : ε} (h : wp F c Q s) (hc : c.run s = .error e) : F e := by
  induction c generalizing s with
  | ret b => cases hc
  | fail e' =>
    cases hc
    exact h
  | get k ih => exact ih s h hc
  | set s₁ k ih => exact ih h hc
  | yield l k ih => exact ih h hc

/-- A program that cannot fail returns. -/
lemma wp.exists_run (h : wp (fun _ => False) c Q s) : ∃ a s', c.run s = .ok (a, s') ∧ Q a s' := by
  cases hc : c.run s with
  | error e => exact (h.fails hc).elim
  | ok r => exact ⟨r.1, r.2, rfl, h.returns hc⟩

/-- What is known of a run can be used in the logic. -/
lemma wp_of_run {a : α} (hc : c.run s = .ok (a, s')) (hQ : Q a s') : wp F c Q s := by
  induction c generalizing s with
  | ret b =>
    cases hc
    exact hQ
  | fail e => cases hc
  | get k ih => exact ih s hc
  | set s₁ k ih => exact ih hc
  | yield l k ih => exact ih hc

lemma wp_true : wp (fun _ => True) c (fun _ _ => True) s := by
  induction c generalizing s with
  | ret a => trivial
  | fail e => trivial
  | get k ih => exact ih s
  | set s₁ k ih => exact ih
  | yield l k ih => exact ih

lemma wp.mono (h : wp F c Q s) (hQ : ∀ a s', Q a s' → Q' a s') : wp F c Q' s := by
  induction c generalizing s with
  | ret a => exact hQ a s h
  | fail e => exact h
  | get k ih => exact ih s h
  | set s₁ k ih => exact ih h
  | yield l k ih => exact ih h

/-! ### Rules for the commands -/

@[simp]
lemma wp_pure {a : α} : wp F (pure a : Coroutine σ ε ℓ α) Q s ↔ Q a s := Iff.rfl

@[simp]
lemma wp_get {Q : σ → σ → Prop} : wp F (MonadState.get : Coroutine σ ε ℓ σ) Q s ↔ Q s s := Iff.rfl

@[simp]
lemma wp_modify {f : σ → σ} {Q : PUnit → σ → Prop} :
    wp F (modify f : Coroutine σ ε ℓ PUnit) Q s ↔ Q ⟨⟩ (f s) := Iff.rfl

@[simp]
lemma wp_pause {l : ℓ} {Q : PUnit → σ → Prop} :
    wp F (pause l : Coroutine σ ε ℓ PUnit) Q s ↔ Q ⟨⟩ s := Iff.rfl

@[simp]
lemma wp_bind {f : α → Coroutine σ ε ℓ β} {Q : β → σ → Prop} :
    wp F (c >>= f) Q s ↔ wp F c (fun a => wp F (f a) Q) s := by
  induction c generalizing s with
  | ret a => exact Iff.rfl
  | fail e => exact Iff.rfl
  | get k ih => exact ih s
  | set s₁ k ih => exact ih
  | yield l k ih => exact ih

/-- The rest of the state stays as it is. -/
lemma wp_zoom {τ ε' : Type} {F : ε' → Prop} {get : τ → σ} {put : σ → τ → τ} {fail : ε → ε'}
    {Q : α → τ → Prop} {t : τ} (hput : ∀ t, put (get t) t = t)
    (hget : ∀ s t, get (put s t) = s) (hputput : ∀ s s' t, put s (put s' t) = put s t) :
    wp F (c.zoom get put fail) Q t ↔
      wp (fun e => F (fail e)) c (fun a s => Q a (put s t)) (get t) := by
  induction c generalizing t with
  | ret a =>
    show Q a t ↔ Q a (put (get t) t)
    rw [hput]
  | fail e => exact Iff.rfl
  | get k ih => exact ih (get t)
  | set s k ih =>
    refine ih.trans ?_
    simp only [hget, hputput]
    exact Iff.rfl
  | yield l k ih => exact ih

lemma wp_ite {p : Prop} [Decidable p] {c c' : Coroutine σ ε ℓ α}
    (h : p → wp F c Q s) (h' : ¬p → wp F c' Q s) : wp F (if p then c else c') Q s := by
  split
  · exact h ‹p›
  · exact h' ‹¬p›

variable {f : ℕ → Coroutine σ ε ℓ PUnit}

/-- The rule for counting loops: `I i` holds when `i` rounds are done. -/
lemma wp_forM_of_eq_range {n : ℕ} {xs : List ℕ} {Q : PUnit → σ → Prop} (hxs : xs = List.range n)
    (I : ℕ → σ → Prop) (h0 : I 0 s)
    (hstep : ∀ i < n, ∀ s, I i s → wp F (f i) (fun _ => I (i + 1)) s) (hQ : ∀ s, I n s → Q ⟨⟩ s) :
    wp F (forM xs f) Q s := by
  -- the rounds from `i` on, for every state in which `i` rounds are done
  suffices ∀ k i s, i + k = n → I i s → wp F (forM (List.range' i k) f) Q s by
    rw [hxs, List.range_eq_range']
    exact this n 0 s (Nat.zero_add n) h0
  intro k
  induction k with
  | zero =>
    intro i s hi hI
    obtain rfl : i = n := hi
    exact hQ s hI
  | succ k ih =>
    intro i s hi hI
    rw [List.range'_succ, List.forM_cons, wp_bind]
    apply (hstep i (by omega) s hI).mono
    intro _ s' hI'
    exact ih (i + 1) s' (by omega) hI'

lemma wp_forM_range {n : ℕ} {Q : PUnit → σ → Prop} (I : ℕ → σ → Prop) (h0 : I 0 s)
    (hstep : ∀ i < n, ∀ s, I i s → wp F (f i) (fun _ => I (i + 1)) s) (hQ : ∀ s, I n s → Q ⟨⟩ s) :
    wp F (forM (List.range n) f) Q s :=
  wp_forM_of_eq_range rfl I h0 hstep hQ

end Coroutine

end Core
