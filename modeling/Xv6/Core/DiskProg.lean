import Mathlib.Logic.Function.Basic
import Mathlib.Data.List.Basic

/-!
# Programs over a block device

The only effects of a `DiskProg` are reads of single blocks and atomic writes of single blocks.
Running it on a device yields its result together with the trace of its writes; a crash after
`k` writes leaves the device with exactly the first `k` of them applied, and nothing else of the
program's state.
-/

namespace Core

variable {A V : Type} {α β σ ι : Type}

/-- A program over a device with addresses `A` and blocks `V`. -/
inductive DiskProg (A V α : Type) where
  | ret (a : α)
  | read (a : A) (k : V → DiskProg A V α)
  | write (a : A) (v : V) (k : DiskProg A V α)

namespace DiskProg

def bind : DiskProg A V α → (α → DiskProg A V β) → DiskProg A V β
  | ret a, f => f a
  | read a k, f => read a fun v => (k v).bind f
  | write a v k, f => write a v (k.bind f)

instance : Monad (DiskProg A V) where
  pure := ret
  bind := bind

end DiskProg

/-! ### Write traces -/

section Replay

variable [DecidableEq A]

/-- Apply the writes of a trace, in order. -/
def replay (ws : List (A × V)) (d : A → V) : A → V :=
  ws.foldl (fun d w => Function.update d w.1 w.2) d

@[simp] lemma replay_nil (d : A → V) : replay [] d = d := rfl

@[simp] lemma replay_cons (w : A × V) (ws : List (A × V)) (d : A → V) :
    replay (w :: ws) d = replay ws (Function.update d w.1 w.2) := rfl

lemma replay_append (ws vs : List (A × V)) (d : A → V) :
    replay (ws ++ vs) d = replay vs (replay ws d) := by
  simp [replay]

variable {ws : List (A × V)}

/-- A block that no write of the trace names keeps its content. -/
lemma replay_of_notMem {b : A} (h : b ∉ ws.map Prod.fst) (d : A → V) : replay ws d b = d b := by
  induction ws generalizing d with
  | nil => rfl
  | cons w ws ih =>
    simp only [List.map_cons, List.mem_cons, not_or] at h
    rw [replay_cons, ih h.2, Function.update_of_ne h.1]

/-- Where the trace writes, or the two devices agree, replaying gives the same block. -/
lemma replay_congr {d e : A → V} {b : A} (h : b ∈ ws.map Prod.fst ∨ d b = e b) :
    replay ws d b = replay ws e b := by
  induction ws generalizing d e with
  | nil => simpa using h
  | cons w ws ih =>
    rw [replay_cons, replay_cons]
    apply ih
    by_cases hb : b = w.1
    · right
      simp [hb]
    · simp only [List.map_cons, List.mem_cons, hb, false_or] at h
      simpa [Function.update_of_ne hb] using h

/-- With distinct addresses every write of the trace survives it. -/
lemma replay_of_mem (hnd : (ws.map Prod.fst).Nodup) {b : A} {v : V} (h : (b, v) ∈ ws) (d : A → V) :
    replay ws d b = v := by
  induction ws generalizing d with
  | nil => simp at h
  | cons w ws ih =>
    simp only [List.map_cons, List.nodup_cons] at hnd
    rcases List.mem_cons.mp h with rfl | h
    · rw [replay_cons, replay_of_notMem hnd.1, Function.update_self]
    · exact ih hnd.2 h _

/-- What one write preserves, every prefix of a trace preserves. -/
lemma replay_take_invariant {P : (A → V) → Prop}
    (hw : ∀ w ∈ ws, ∀ d, P d → P (Function.update d w.1 w.2)) {d : A → V} (hd : P d) (k : ℕ) :
    P (replay (ws.take k) d) := by
  induction ws generalizing d k with
  | nil => simpa using hd
  | cons w ws ih =>
    cases k with
    | zero => simpa using hd
    | succ k =>
      rw [List.take_succ_cons, replay_cons]
      exact ih (fun w' hw' => hw w' (List.mem_cons_of_mem _ hw')) (hw w List.mem_cons_self d hd) k

end Replay

/-! ### Running a program -/

namespace DiskProg

variable [DecidableEq A]

/-- Result and write trace of a program on the device `d`. -/
def exec : DiskProg A V α → (A → V) → α × List (A × V)
  | ret a, _ => (a, [])
  | read a k, d => (k (d a)).exec d
  | write a v k, d => ((k.exec (Function.update d a v)).1,
      (a, v) :: (k.exec (Function.update d a v)).2)

/-- The device after the program has run to completion. -/
def final (p : DiskProg A V α) (d : A → V) : A → V := replay (p.exec d).2 d

/-- The device when a crash strikes after the first `k` writes of the program. -/
def crash (p : DiskProg A V α) (d : A → V) (k : ℕ) : A → V := replay ((p.exec d).2.take k) d

lemma exec_bind (p : DiskProg A V α) (f : α → DiskProg A V β) (d : A → V) :
    (p >>= f).exec d = (((f (p.exec d).1).exec (p.final d)).1,
      (p.exec d).2 ++ ((f (p.exec d).1).exec (p.final d)).2) := by
  change (p.bind f).exec d = _
  induction p generalizing d with
  | ret a => simp [DiskProg.bind, exec, final]
  | read a k ih => simp [DiskProg.bind, exec, final, ih]
  | write a v k ih => simp [DiskProg.bind, exec, final, ih]

end DiskProg

/-! ### Specifications with traces -/

/-- `Spec P m ws Q`: from a state and a device satisfying `P`, the program `m` writes exactly the
trace `ws`, and its result, final state and final device satisfy `Q`. -/
def Spec [DecidableEq A] (P : σ → (A → V) → Prop) (m : StateT σ (DiskProg A V) α)
    (ws : List (A × V)) (Q : α → σ → (A → V) → Prop) : Prop :=
  ∀ s d, P s d → ((m s).exec d).2 = ws ∧ Q ((m s).exec d).1.1 ((m s).exec d).1.2 (replay ws d)

namespace Spec

variable [DecidableEq A] {P P' : σ → (A → V) → Prop} {ws vs : List (A × V)}

variable {m : StateT σ (DiskProg A V) α} {Q : α → σ → (A → V) → Prop}

lemma consequence {Q' : α → σ → (A → V) → Prop} (h : Spec P m ws Q) (hP : ∀ s d, P' s d → P s d)
    (hQ : ∀ a s d, Q a s d → Q' a s d) : Spec P' m ws Q' := by
  intro s d hs
  obtain ⟨hw, hq⟩ := h s d (hP s d hs)
  exact ⟨hw, hQ _ _ _ hq⟩

variable {f : α → StateT σ (DiskProg A V) β} {R : β → σ → (A → V) → Prop}

/-- Sequencing: traces are appended. -/
lemma bind (hm : Spec P m ws Q) (hf : ∀ a, Spec (Q a) (f a) vs R) :
    Spec P (m >>= f) (ws ++ vs) R := by
  intro s d hs
  obtain ⟨hw, hq⟩ := hm s d hs
  obtain ⟨hv, hr⟩ := hf _ _ _ hq
  have hfinal : (m s).final d = replay ws d := by rw [DiskProg.final, hw]
  have hexec : ((m >>= f) s).exec d =
      (((f ((m s).exec d).1.1 ((m s).exec d).1.2).exec (replay ws d)).1, ws ++ vs) := by
    change (m s >>= fun r => f r.1 r.2).exec d = _
    rw [DiskProg.exec_bind, hfinal, hw, hv]
  rw [hexec, replay_append]
  exact ⟨rfl, hr⟩

/-- A step of a sequence that writes nothing. -/
lemma bind_silent (hm : Spec P m [] Q) (hf : ∀ a, Spec (Q a) (f a) vs R) :
    Spec P (m >>= f) vs R := by
  simpa using bind hm hf

/-- The loop rule: the invariant `I` speaks about the elements already treated, and every
element `x` contributes the writes `w x` to the trace. -/
lemma forM (f : ι → StateT σ (DiskProg A V) PUnit) (w : ι → List (A × V)) (l : List ι)
    (I : List ι → σ → (A → V) → Prop)
    (hf : ∀ pre x post, l = pre ++ x :: post →
      Spec (I pre) (f x) (w x) fun _ => I (pre ++ [x])) :
    Spec (I []) (l.forM f) (l.flatMap w) fun _ => I l := by
  suffices ∀ post pre, l = pre ++ post →
      Spec (I pre) (post.forM f) (post.flatMap w) fun _ => I l by
    exact this l [] (by simp)
  intro post
  induction post with
  | nil =>
    intro pre hl
    rw [List.append_nil] at hl
    subst hl
    intro s d hs
    exact ⟨rfl, hs⟩
  | cons x post ih =>
    intro pre hl
    refine bind (hf pre x post hl) fun _ => ?_
    exact ih (pre ++ [x]) (by simp [hl])

end Spec

end Core
