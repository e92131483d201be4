import Xv6.Core.Ledger
import Xv6.Core.Population
import Xv6.Ftable.Basic

/-!
# References to files

A file is counted once for each place that refers to it: the descriptors, and what the running calls
have in hand. An end of a pipe is open as long as one file, or one call that is about to close it,
has it.
-/

namespace Xv6.Ftable

open Core State

variable {Page P : Type} {s s' : State Page P} {p q np : P} {f g : Fin NFILE} {i : ℕ}

/-- The references that a running call has in hand. A call that closes files takes them from the
end. -/
def Pc.held : Pc Page P → ℕ → Option (Fin NFILE)
  | .openHave f _ _ => fun k => [f][k]?
  | .pipeOne f₀ => fun k => if k = 1 then some f₀ else none
  | .pipeTwo f₀ f₁ | .pipeReady f₀ f₁ => fun k => [f₁, f₀][k]?
  | .closing todo | .ending _ _ todo => fun k => todo.reverse[k]?
  | _ => fun _ => none

/-- A descriptor that is not counted yet, or not any more. -/
def Pc.masks : Pc Page P → Fin NOFILE → Bool
  | .dupHave _ _ fd, x => x = fd
  | .exitEnding fd _ _, x => x = fd
  | .exitClear fd, x => x = fd
  | _, _ => false

/-- The files that a running call has allocated and not filled in yet. -/
def Pc.fresh : Pc Page P → List (Fin NFILE)
  | .openHave f _ _ | .openFill f _ _ | .pipeOne f => [f]
  | .pipeTwo f₀ f₁ => [f₀, f₁]
  | _ => []

/-- The end of a pipe that a running call is about to close. -/
def Pc.ends : Pc Page P → Option (Page × Bool)
  | .ending pi writable _ | .exitEnding _ pi writable => some (pi, writable)
  | _ => none

/-- Neither made by a `fork` nor in one. -/
def Pc.plain : Pc Page P → Bool
  | .embryo | .forking _ _ => false
  | _ => true

/-- A call may go from one point to the other with the ends that it has. -/
def Pc.Follows (a b : Pc Page P) : Prop :=
  a.plain = true ∧ b.plain = true ∧ b.fresh ⊆ a.fresh ∧ b.ends = a.ends

/-- A file that is not in use has no type, and a file of a pipe is one of its ends. -/
def File.Ok (x : File Page) : Prop :=
  (x.ref = 0 → x.type = .none) ∧
    (x.type = .pipe → (∃ pi, x.pipe = some pi) ∧ x.readable = !x.writable)

/-- A place of a process: a descriptor, or what a call has in hand. -/
abbrev Place := Fin NOFILE ⊕ ℕ

/-- What the places of a process refer to. -/
def places (pc : Pc Page P) (ofile : Fin NOFILE → Option (Fin NFILE)) : Place → Option (Fin NFILE)
  | .inl fd => if pc.masks fd then none else ofile fd
  | .inr k => pc.held k

namespace State

/-- What all places refer to. -/
def counted (s : State Page P) (x : P × Place) : Option (Fin NFILE) :=
  places (s.pc x.1) (s.ofile x.1) x.2

/-- The ends of pipes that the files and the running calls have. -/
def token (s : State Page P) : Fin NFILE ⊕ P → Option (Page × Bool)
  | .inl f =>
    if (s.file f).type = .pipe then (s.file f).pipe.map fun pi =>
      (pi, (s.file f).writable) else none
  | .inr p => (s.pc p).ends

/-- The end of a pipe is open. -/
def OpenEnd (s : State Page P) (x : Page × Bool) : Prop :=
  ∃ e, s.pipe x.1 = some e ∧ (if x.2 then e.writeopen else e.readopen) = true

end State

/-- What a call relies on at each point. -/
def Local (s : State Page P) (p : P) : Prop :=
  match s.pc p with
  | .unused | .zombie => ∀ fd, s.ofile p fd = none
  | .openFill f _ _ => ∃ fd, s.ofile p fd = some f
  | .dupHave f fd₀ fd => s.ofile p fd₀ = some f ∧ fd₀ ≠ fd ∧ s.ofile p fd = some f
  | .forking np i => s.pc np = .embryo ∧ ∀ fd : Fin NOFILE, i ≤ fd → s.ofile np fd = none
  | .exiting i => ∀ fd : Fin NOFILE, fd < i → s.ofile p fd = none
  | .exitEnding fd₀ _ _ | .exitClear fd₀ => ∀ fd : Fin NOFILE, fd < fd₀ → s.ofile p fd = none
  | _ => True

/-- The references are counted, and the ends of the pipes are accounted for. -/
structure Inv (s : State Page P) : Prop where
  tally : Tally s.counted fun f => (s.file f).ref
  none_of_ref : ∀ f, (s.file f).ref = 0 → (s.file f).type = .none
  fresh : ∀ p f, f ∈ (s.pc p).fresh → (s.file f).type = .none ∧ (s.file f).ref = 1
  ends : Exact (fun _ => False) s.OpenEnd s.token
  pipeFile : ∀ f, (s.file f).type = .pipe →
    (∃ pi, (s.file f).pipe = some pi) ∧ (s.file f).readable = !(s.file f).writable
  pipes : ∀ pi e, s.pipe pi = some e → e.readopen = true ∨ e.writeopen = true
  local_ : ∀ p, Local s p
  forked : ∀ p q np i j, s.pc p = .forking np i → s.pc q = .forking np j → p = q

lemma Local.frame (h : Local s q) (hpc : s'.pc q = s.pc q) (hofile : s'.ofile q = s.ofile q)
    (hfork : ∀ np i, s.pc q = .forking np i → s'.pc np = s.pc np ∧ s'.ofile np = s.ofile np) :
    Local s' q := by
  unfold Local at h ⊢
  rw [hpc, hofile]
  cases hq : s.pc q with
  | forking np i =>
    rw [hq] at h
    obtain ⟨hnp, hnpo⟩ := hfork np i hq
    dsimp only at h ⊢
    rw [hnp, hnpo]
    exact h
  | _ =>
    rw [hq] at h
    exact h

section

variable [DecidableEq P]

/-- One place of one process changes. -/
lemma counted_update {x : Place} {v : Option (Fin NFILE)}
    (hothers : ∀ q ≠ p, s'.pc q = s.pc q ∧ s'.ofile q = s.ofile q)
    (hp : places (s'.pc p) (s'.ofile p) = Function.update (places (s.pc p) (s.ofile p)) x v) :
    s'.counted = Function.update s.counted (p, x) v := by
  funext ⟨q, y⟩
  rcases eq_or_ne q p with rfl | hq
  · rw [counted, hp]
    rcases eq_or_ne y x with rfl | hy
    · rw [Function.update_self, Function.update_self]
    · rw [Function.update_of_ne hy, Function.update_of_ne fun heq => hy (Prod.ext_iff.mp heq).2]
      rfl
  · rw [Function.update_of_ne fun heq => hq (Prod.ext_iff.mp heq).1, counted, (hothers q hq).1,
      (hothers q hq).2]
    rfl

end

/-- No place changes. -/
lemma counted_eq (hothers : ∀ q ≠ p, s'.pc q = s.pc q ∧ s'.ofile q = s.ofile q)
    (hp : places (s'.pc p) (s'.ofile p) = places (s.pc p) (s.ofile p)) :
      s'.counted = s.counted := by
  funext ⟨q, y⟩
  by_cases hq : q = p
  · rw [hq, counted, hp]
    rfl
  · rw [counted, (hothers q hq).1, (hothers q hq).2]
    rfl

namespace Inv

/-- An allocated file that is not filled in yet has a place. -/
lemma exists_place (h : Inv s) (hf : f ∈ (s.pc p).fresh) : ∃ x, s.counted (p, x) = some f := by
  have hlocal := h.local_ p
  unfold Local at hlocal
  simp only [counted]
  cases hp : s.pc p with
  | openHave g device omode =>
    rw [hp] at hf
    obtain rfl := List.mem_singleton.mp hf
    exact ⟨.inr 0, rfl⟩
  | openFill g device omode =>
    rw [hp] at hf hlocal
    obtain rfl := List.mem_singleton.mp hf
    obtain ⟨fd, hfd⟩ := hlocal
    exact ⟨.inl fd, hfd⟩
  | pipeOne g =>
    rw [hp] at hf
    obtain rfl := List.mem_singleton.mp hf
    exact ⟨.inr 1, rfl⟩
  | pipeTwo f₀ f₁ =>
    rw [hp] at hf
    rcases List.mem_cons.mp hf with rfl | hf
    · exact ⟨.inr 1, rfl⟩
    · obtain rfl := List.mem_singleton.mp hf
      exact ⟨.inr 0, rfl⟩
  | _ =>
    rw [hp] at hf
    exact absurd hf List.not_mem_nil

/-- A file that one process refers to is not a fresh one of another. -/
lemma not_fresh (h : Inv s) {x : Place} (hf : s.counted (p, x) = some f) (hq : q ≠ p) :
    f ∉ (s.pc q).fresh := by
  intro hmem
  obtain ⟨y, hy⟩ := h.exists_place hmem
  exact hq (congrArg Prod.fst (h.tally.inj (h.fresh q f hmem).2 hy hf))

/-- A step of one process, in which the files in `C` change. -/
lemma of_process (h : Inv s) {C : Fin NFILE → Prop} (hp : (s.pc p).plain = true)
    (hp' : (s'.pc p).plain = true)
    (hothers : ∀ q ≠ p, s'.pc q = s.pc q ∧ s'.ofile q = s.ofile q)
    (hfile : ∀ g, ¬C g → s'.file g = s.file g)
    (hchanged : ∀ g, C g → (s'.file g).Ok ∧ ∀ q ≠ p, g ∉ (s.pc q).fresh)
    (htally : Tally s'.counted fun f => (s'.file f).ref)
    (hfresh : ∀ f ∈ (s'.pc p).fresh, (s'.file f).type = .none ∧ (s'.file f).ref = 1)
    (hends : Exact (fun _ => False) s'.OpenEnd s'.token)
    (hpipes : ∀ pi e, s'.pipe pi = some e → e.readopen = true ∨ e.writeopen = true)
    (hlocal : Local s' p) : Inv s' := by
  have hok : ∀ g, (s'.file g).Ok := by
    intro g
    by_cases hg : C g
    · exact (hchanged g hg).1
    · rw [hfile g hg]
      exact ⟨h.none_of_ref g, h.pipeFile g⟩
  refine ⟨htally, fun g => (hok g).1, ?_, hends, fun g => (hok g).2, hpipes, ?_, ?_⟩
  · intro q f hf
    by_cases hq : q = p
    · subst hq
      exact hfresh f hf
    · rw [(hothers q hq).1] at hf
      rw [hfile f fun hC => (hchanged f hC).2 q hq hf]
      exact h.fresh q f hf
  · intro q
    by_cases hq : q = p
    · exact hq ▸ hlocal
    · refine (h.local_ q).frame (hothers q hq).1 (hothers q hq).2 ?_
      intro np i hnp
      have hnpp : np ≠ p := by
        rintro rfl
        have := h.local_ q
        unfold Local at this
        rw [hnp] at this
        rw [this.1] at hp
        cases hp
      exact hothers np hnpp
  · have hback : ∀ q np i, s'.pc q = .forking np i → s.pc q = .forking np i := by
      intro q np i hq
      by_cases hqp : q = p
      · rw [hqp] at hq
        rw [hq] at hp'
        cases hp'
      · exact (hothers q hqp).1 ▸ hq
    intro q q' np i j hq hq'
    exact h.forked q q' np i j (hback q np i hq) (hback q' np j hq')

/-- A process does something to its own descriptors. -/
lemma of_own (h : Inv s) (hfollows : (s.pc p).Follows (s'.pc p))
    (hothers : ∀ q ≠ p, s'.pc q = s.pc q ∧ s'.ofile q = s.ofile q) (hfile : s'.file = s.file)
    (hpipe : s'.pipe = s.pipe) (htally : Tally s'.counted fun f => (s.file f).ref)
    (hlocal : Local s' p) : Inv s' := by
  obtain ⟨hp, hp', hfresh, hends⟩ := hfollows
  have htoken : s'.token = s.token := by
    funext x
    cases x with
    | inl f => simp only [token, hfile]
    | inr q =>
      by_cases hq : q = p
      · subst hq
        exact hends
      · simp only [token, (hothers q hq).1]
  have hopen : s'.OpenEnd = s.OpenEnd := by
    funext x
    simp only [OpenEnd, hpipe]
  refine h.of_process (C := fun _ => False) hp hp' hothers (fun _ _ => by rw [hfile])
    (fun _ => False.elim) (hfile ▸ htally) ?_ (by rw [htoken, hopen]; exact h.ends)
    (hpipe ▸ h.pipes) hlocal
  intro f hf
  rw [hfile]
  exact h.fresh p f (hfresh hf)

end Inv

end Xv6.Ftable
