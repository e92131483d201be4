import Xv6.Ftable.Steps

/-!
# Pipes and forks

The two ends of a new pipe go to two files, and an end is closed by the call that has it. `fork`
counts the descriptors that it copies.
-/

namespace Xv6.Ftable

open Core State

variable {Page P : Type} [DecidableEq Page] [DecidableEq P] {s s' : State Page P} {p q np : P}
  {f f₀ f₁ g : Fin NFILE} {i : ℕ} {x : Place} {pi : Page} {pc : Pc Page P}

namespace Inv

omit [DecidableEq P] in
/-- What `pipeclose` does with an open end. -/
lemma pipeclose_eq (h : Inv s) {e : Pipe} {writable : Bool} (he : s.pipe pi = some e)
    (hopen : (if writable then e.writeopen else e.readopen) = true) :
    ∃ v, pipeclose s pi writable = .ok (s.setPipe pi v) ∧
      (s.setPipe pi v).OpenEnd = (fun x => s.OpenEnd x ∧ x ≠ (pi, writable)) ∧
      ∀ pi' e, (s.setPipe pi v).pipe pi' = some e → e.readopen = true ∨ e.writeopen = true := by
  obtain ⟨r, w⟩ := e
  -- the end is closed, and the page is freed with the second one
  have hspec : ∀ v : Option Pipe,
      (∀ b, (∃ e, v = some e ∧ (if b then e.writeopen else e.readopen) = true) ↔
        (if b then w else r) = true ∧ b ≠ writable) →
      (∀ e, v = some e → e.readopen = true ∨ e.writeopen = true) →
      (s.setPipe pi v).OpenEnd = (fun x => s.OpenEnd x ∧ x ≠ (pi, writable)) ∧
      ∀ pi' e, (s.setPipe pi v).pipe pi' = some e → e.readopen = true ∨ e.writeopen = true := by
    intro v hv hv'
    refine ⟨?_, ?_⟩
    · funext ⟨pi', b⟩
      rw [eq_iff_iff]
      simp only [OpenEnd, setPipe]
      rcases eq_or_ne pi' pi with rfl | hne
      · rw [Function.update_self, hv b, he]
        simp
      · rw [Function.update_of_ne hne]
        simp [hne]
    · intro pi' e he'
      simp only [setPipe] at he'
      rcases eq_or_ne pi' pi with rfl | hne
      · rw [Function.update_self] at he'
        exact hv' e he'
      · rw [Function.update_of_ne hne] at he'
        exact h.pipes pi' e he'
  cases writable with
  | true =>
    obtain rfl : w = true := hopen
    cases r with
    | true =>
      exact ⟨(some ⟨true, false⟩), by simp [pipeclose, he], hspec _
        (by rintro (_ | _) <;> simp) (by simp)⟩
    | false =>
      exact ⟨none, by simp [pipeclose, he], hspec _
        (by rintro (_ | _) <;> simp) (by simp)⟩
  | false =>
    obtain rfl : r = true := hopen
    cases w with
    | true =>
      exact ⟨(some ⟨false, true⟩), by simp [pipeclose, he], hspec _
        (by rintro (_ | _) <;> simp) (by simp)⟩
    | false =>
      exact ⟨none, by simp [pipeclose, he], hspec _
        (by rintro (_ | _) <;> simp) (by simp)⟩

/-- A call closes the end of a pipe that it has. -/
lemma closeEnd (h : Inv s) (hp : (s.pc p).plain = true) {writable : Bool}
    (hends : (s.pc p).ends = some (pi, writable)) (hpc : pc.plain = true)
    (hplaces : places pc (s.ofile p) = places (s.pc p) (s.ofile p)) (hends' : pc.ends = none)
    (hfresh : pc.fresh = []) (hlocal : ∀ v, Local ((s.setPipe pi v).setPc p pc) p) :
    ∃ s', pipeclose s pi writable = .ok s' ∧ Inv (s'.setPc p pc) := by
  have htoken₀ : s.token (.inr p) = some (pi, writable) := hends
  obtain ⟨e, he, hopen⟩ := h.ends.used_of_ref htoken₀
  obtain ⟨v, hv, hopenEnd, hpipes⟩ := h.pipeclose_eq he hopen
  refine ⟨_, hv, ?_⟩
  have hothers := others_setPc (s.setPipe pi v) p pc
  have hself := pc_setPc (s.setPipe pi v) p pc
  refine h.of_process (C := fun _ => False) hp (by rw [hself]; exact hpc) hothers (fun _ _ => rfl)
    (fun _ => False.elim) ?_ ?_ ?_ hpipes (hlocal v)
  · rw [counted_eq (s := s) hothers (by rw [hself]; exact hplaces)]
    exact h.tally
  · rw [hself, hfresh]
    exact fun g hg => absurd hg List.not_mem_nil
  · have htoken : ((s.setPipe pi v).setPc p pc).token = Function.update s.token (.inr p) none := by
      funext y
      cases y with
      | inl g =>
        rw [Function.update_of_ne Sum.inl_ne_inr]
        rfl
      | inr q =>
        rcases eq_or_ne q p with rfl | hq
        · rw [Function.update_self]
          exact (congrArg Pc.ends hself).trans hends'
        · rw [Function.update_of_ne fun heq => hq (Sum.inr.inj heq)]
          exact congrArg Pc.ends (hothers q hq).1
    rw [htoken]
    show Exact _ (s.setPipe pi v).OpenEnd _
    rw [hopenEnd]
    exact h.ends.free htoken₀

/-- `pipealloc` fills in its pipe and its files. -/
lemma fillPipe (h : Inv s) (hp : s.pc p = .pipeTwo f₀ f₁) (hpi : s.pipe pi = none) :
    Inv ((fillPipe s f₀ f₁ pi).setPc p (.pipeReady f₀ f₁)) := by
  have hmem₀ : f₀ ∈ (s.pc p).fresh := by rw [hp]; exact List.mem_cons_self
  have hmem₁ : f₁ ∈ (s.pc p).fresh := by rw [hp]; exact List.mem_cons_of_mem _ List.mem_cons_self
  obtain ⟨htype₀, hone₀⟩ := h.fresh p f₀ hmem₀
  obtain ⟨htype₁, hone₁⟩ := h.fresh p f₁ hmem₁
  have hx₀ : s.counted (p, .inr 1) = some f₀ := by rw [counted, hp]; rfl
  have hx₁ : s.counted (p, .inr 0) = some f₁ := by rw [counted, hp]; rfl
  have hne : f₁ ≠ f₀ := by
    rintro rfl
    have := h.tally.inj hone₁ hx₀ hx₁
    simp at this
  generalize hs' : (Ftable.fillPipe s f₀ f₁ pi).setPc p (.pipeReady f₀ f₁) = s'
  have hself : s'.pc p = .pipeReady f₀ f₁ := by rw [← hs']; exact pc_setPc ..
  have hothers : ∀ q ≠ p, s'.pc q = s.pc q ∧ s'.ofile q = s.ofile q := by
    intro q hq
    rw [← hs']
    exact others_setPc _ p _ q hq
  have hfile₀ : s'.file f₀ = { s.file f₀ with
      type := .pipe, readable := true, writable := false, pipe := some pi } := by
    rw [← hs']
    exact (Function.update_of_ne hne.symm ..).trans (Function.update_self ..)
  have hfile₁ : s'.file f₁ = { s.file f₁ with
      type := .pipe, readable := false, writable := true, pipe := some pi } := by
    rw [← hs']
    simp [State.setPc, Ftable.fillPipe, setFile, setPipe, hne]
  have hfile : ∀ g, g ≠ f₀ → g ≠ f₁ → s'.file g = s.file g := by
    intro g hg₀ hg₁
    rw [← hs']
    exact (Function.update_of_ne hg₁ ..).trans (Function.update_of_ne hg₀ ..)
  have hpipe : s'.pipe = Function.update s.pipe pi (some ⟨true, true⟩) := by rw [← hs']; rfl
  have hcounted : s'.counted = s.counted := by
    refine counted_eq hothers ?_
    rw [hself, hp, ← hs']
    rfl
  have href : (fun g => (s'.file g).ref) = fun g => (s.file g).ref := by
    funext g
    by_cases hg₀ : g = f₀
    · rw [hg₀, hfile₀]
    by_cases hg₁ : g = f₁
    · rw [hg₁, hfile₁]
    rw [hfile g hg₀ hg₁]
  have htoken : s'.token = Function.update (Function.update s.token (.inl f₀) (some (pi, false)))
      (.inl f₁) (some (pi, true)) := by
    funext y
    cases y with
    | inl g =>
      by_cases hg₁ : g = f₁
      · rw [hg₁, Function.update_self]
        simp [token, hfile₁]
      rw [Function.update_of_ne fun heq => hg₁ (Sum.inl.inj heq)]
      by_cases hg₀ : g = f₀
      · rw [hg₀, Function.update_self]
        simp [token, hfile₀]
      · rw [Function.update_of_ne fun heq => hg₀ (Sum.inl.inj heq)]
        simp only [token, hfile g hg₀ hg₁]
    | inr q =>
      rw [Function.update_of_ne Sum.inr_ne_inl, Function.update_of_ne Sum.inr_ne_inl]
      rcases eq_or_ne q p with rfl | hq
      · simp only [token, hself, hp, Pc.ends]
      · simp only [token, (hothers q hq).1]
  have hopenEnd : s'.OpenEnd = fun x => (s.OpenEnd x ∨ x = (pi, false)) ∨ x = (pi, true) := by
    funext x
    obtain ⟨pi', b⟩ := x
    rw [eq_iff_iff]
    simp only [OpenEnd, hpipe]
    rcases eq_or_ne pi' pi with rfl | hpi'
    · rw [Function.update_self, hpi]
      cases b <;> simp
    · rw [Function.update_of_ne hpi']
      simp [hpi']
  refine h.of_process (C := fun g => g = f₀ ∨ g = f₁) (by rw [hp]; rfl) (by rw [hself]; rfl) hothers
    (fun g hg => hfile g (fun heq => hg (.inl heq)) fun heq => hg (.inr heq)) ?_
    (by rw [hcounted, href]; exact h.tally)
    (by rw [hself]; exact fun g hg => absurd hg List.not_mem_nil) ?_ ?_ (local_of_free hself rfl)
  · rintro g (rfl | rfl)
    · rw [hfile₀]
      refine ⟨⟨fun hzero => ?_, fun _ => ⟨⟨pi, rfl⟩, rfl⟩⟩, fun q hq => h.not_fresh hx₀ hq⟩
      exact absurd (hone₀.symm.trans hzero) one_ne_zero
    · rw [hfile₁]
      refine ⟨⟨fun hzero => ?_, fun _ => ⟨⟨pi, rfl⟩, rfl⟩⟩, fun q hq => h.not_fresh hx₁ hq⟩
      exact absurd (hone₁.symm.trans hzero) one_ne_zero
  · rw [htoken, hopenEnd]
    have hclosed : ∀ b, ¬s.OpenEnd (pi, b) := by
      rintro b ⟨e, he, -⟩
      rw [hpi] at he
      cases he
    have htoken₀ : s.token (.inl f₀) = none := by simp [token, htype₀]
    have htoken₁ : Function.update s.token (.inl f₀) (some (pi, false)) (.inl f₁) = none := by
      rw [Function.update_of_ne fun heq => hne (Sum.inl.inj heq)]
      simp [token, htype₁]
    refine (h.ends.alloc (hclosed false) htoken₀).alloc ?_ htoken₁
    rintro (hopen | heq)
    · exact hclosed true hopen
    · cases heq
  · intro pi' e he
    rw [hpipe] at he
    rcases eq_or_ne pi' pi with rfl | hpi'
    · rw [Function.update_self] at he
      cases he
      exact .inl rfl
    · rw [Function.update_of_ne hpi'] at he
      exact h.pipes pi' e he

/-! ### Forks -/

omit [DecidableEq Page] [DecidableEq P] in
/-- A process that is being made has one parent, which is in `fork`. -/
lemma embryo (h : Inv s) (hq : s.pc q = .forking np i) :
    s.pc np = .embryo ∧ ∀ fd : Fin NOFILE, i ≤ fd → s.ofile np fd = none := by
  have hlocal := h.local_ q
  unfold Local at hlocal
  rw [hq] at hlocal
  exact hlocal

omit [DecidableEq Page] [DecidableEq P] in
/-- A step of `fork` with one file: the parent goes on, and so may its child. -/
lemma of_fork (h : Inv s) (hp : s.pc p ≠ .embryo)
    (hmine : ∀ q i, q ≠ p → s.pc q ≠ .forking np i)
    (hothers : ∀ q, q ≠ p → q ≠ np → s'.pc q = s.pc q ∧ s'.ofile q = s.ofile q)
    (htally : Tally s'.counted fun f => (s'.file f).ref)
    (hfile : ∀ f, (s'.file f).type = (s.file f).type ∧ (s'.file f).pipe = (s.file f).pipe ∧
      (s'.file f).writable = (s.file f).writable ∧ (s'.file f).readable = (s.file f).readable)
    (hnone : ∀ f, (s'.file f).ref = 0 → (s.file f).ref = 0) (hpipe : s'.pipe = s.pipe)
    (hfresh : ∀ q f, f ∈ (s'.pc q).fresh → f ∈ (s.pc q).fresh ∧ (s'.file f).ref = (s.file f).ref)
    (hends : ∀ q, (s'.pc q).ends = (s.pc q).ends) (hlocal : Local s' p) (hlocal' : Local s' np)
    (hfork : ∀ q np' i, s'.pc q = .forking np' i → (∃ j, s.pc q = .forking np' j) ∨
      q = p ∧ np' = np) :
    Inv s' := by
  have htoken : s'.token = s.token :=
    token_eq hends fun f => ⟨(hfile f).1, (hfile f).2.1, (hfile f).2.2.1⟩
  refine ⟨htally, ?_, ?_, by rw [htoken, openEnd_eq hpipe]; exact h.ends, ?_,
    hpipe ▸ h.pipes, ?_, ?_⟩
  · intro f hf
    rw [(hfile f).1]
    exact h.none_of_ref f (hnone f hf)
  · intro q f hf
    obtain ⟨hf, href⟩ := hfresh q f hf
    rw [(hfile f).1, href]
    exact h.fresh q f hf
  · intro f hf
    obtain ⟨htype, hpi, hw, hr⟩ := hfile f
    rw [htype] at hf
    rw [hpi, hw, hr]
    exact h.pipeFile f hf
  · intro q
    by_cases hq : q = p
    · exact hq ▸ hlocal
    by_cases hq' : q = np
    · exact hq' ▸ hlocal'
    refine (h.local_ q).frame (hothers q hq hq').1 (hothers q hq hq').2 ?_
    intro np' i hnp'
    refine hothers np' ?_ ?_
    · rintro rfl
      exact hp (h.embryo hnp').1
    · rintro rfl
      exact hmine q i hq hnp'
  · intro q q' np' i j hq hq'
    rcases hfork q np' i hq with ⟨i', hi'⟩ | ⟨rfl, rfl⟩ <;>
      rcases hfork q' np' j hq' with ⟨j', hj'⟩ | ⟨rfl, hnp⟩
    · exact h.forked q q' np' i' j' hi' hj'
    · subst hnp
      by_contra hne
      exact hmine q i' hne hi'
    · by_contra hne
      exact hmine q' j' (Ne.symm hne) hj'
    · rfl

omit [DecidableEq Page] in
/-- A step of `fork` without a file: the parent and its child go on, with what they have. -/
lemma setPc_setPc (h : Inv s) (hne : np ≠ p) (hp : s.pc p ≠ .embryo)
    (hmine : ∀ q i, q ≠ p → s.pc q ≠ .forking np i) {x y : Pc Page P}
    (hx : places x = places (s.pc p)) (hxfresh : x.fresh = []) (hxends : x.ends = (s.pc p).ends)
    (hy : places y = places (s.pc np)) (hyfresh : y.fresh = []) (hyends : y.ends = (s.pc np).ends)
    (hlocal : Local ((s.setPc np y).setPc p x) p) (hlocal' : Local ((s.setPc np y).setPc p x) np)
    (hxfork : ∀ np' i, x = .forking np' i → np' = np) (hyfork : ∀ np' i, y ≠ .forking np' i) :
    Inv ((s.setPc np y).setPc p x) := by
  generalize hs' : (s.setPc np y).setPc p x = s' at hlocal hlocal' ⊢
  have hself : s'.pc p = x := by rw [← hs']; exact pc_setPc ..
  have hchild : s'.pc np = y := by
    rw [← hs']
    exact (Function.update_of_ne hne ..).trans (Function.update_self ..)
  have hofile : s'.ofile = s.ofile := by rw [← hs']; rfl
  have hfile : s'.file = s.file := by rw [← hs']; rfl
  have hother : ∀ q, q ≠ p → q ≠ np → s'.pc q = s.pc q := by
    intro q hq hq'
    rw [← hs']
    exact (Function.update_of_ne hq ..).trans (Function.update_of_ne hq' ..)
  have hcases : ∀ q, q = p ∨ q = np ∨ s'.pc q = s.pc q := by
    intro q
    by_cases hq : q = p
    · exact .inl hq
    by_cases hq' : q = np
    · exact .inr (.inl hq')
    exact .inr (.inr (hother q hq hq'))
  refine h.of_fork hp hmine (fun q hq hq' => ⟨hother q hq hq', by rw [hofile]⟩)
    ?_ (by simp [hfile]) (by simp [hfile]) (by rw [← hs']; rfl) ?_ ?_ hlocal hlocal' ?_
  · have hcounted : s'.counted = s.counted := by
      funext ⟨q, z⟩
      rw [counted, counted, hofile]
      rcases hcases q with rfl | rfl | heq
      · rw [hself, hx]
      · rw [hchild, hy]
      · simp only [heq]
    rw [hcounted, hfile]
    exact h.tally
  · intro q f hf
    rcases hcases q with rfl | rfl | heq
    · rw [hself, hxfresh] at hf
      exact absurd hf List.not_mem_nil
    · rw [hchild, hyfresh] at hf
      exact absurd hf List.not_mem_nil
    · rw [heq] at hf
      exact ⟨hf, by rw [hfile]⟩
  · intro q
    rcases hcases q with rfl | rfl | heq
    · rw [hself, hxends]
    · rw [hchild, hyends]
    · rw [heq]
  · intro q np' i hq
    rcases hcases q with rfl | rfl | heq
    · exact .inr ⟨rfl, hxfork np' i (hself ▸ hq)⟩
    · exact absurd (hchild ▸ hq) (hyfork np' i)
    · exact .inl ⟨i, heq ▸ hq⟩

omit [DecidableEq Page] in
/-- `fork` gets a process. -/
lemma forkStart (h : Inv s) (hp : s.pc p = .idle) (hnp : s.pc np = .unused) :
    Inv ((s.setPc np .embryo).setPc p (.forking np 0)) := by
  have hne : np ≠ p := by
    rintro rfl
    rw [hp] at hnp
    cases hnp
  have hchild : ((s.setPc np .embryo).setPc p (.forking np 0)).pc np = .embryo :=
    (Function.update_of_ne hne ..).trans (Function.update_self ..)
  have hmine : ∀ q i, q ≠ p → s.pc q ≠ .forking np i := by
    intro q i _ hq
    rw [(h.embryo hq).1] at hnp
    cases hnp
  refine h.setPc_setPc hne (by simp [hp]) hmine (by rw [hp]; rfl) rfl (by rw [hp]; rfl)
    (by rw [hnp]; rfl) rfl (by rw [hnp]; rfl) ?_ ?_ ?_ (by simp)
  · unfold Local
    rw [pc_setPc]
    refine ⟨hchild, fun fd _ => ?_⟩
    have hlocal := h.local_ np
    unfold Local at hlocal
    rw [hnp] at hlocal
    exact hlocal fd
  · exact local_of_free hchild rfl
  · rintro np' i ⟨⟩
    rfl

omit [DecidableEq Page] in
/-- A round of the loop of `fork`. -/
lemma forkRound (h : Inv s) (hp : s.pc p = .forking np i) :
    ∃ s', forkRound s p np i = .ok s' ∧ Inv s' := by
  obtain ⟨hnp, hofile⟩ := h.embryo hp
  have hne : np ≠ p := by
    rintro rfl
    rw [hp] at hnp
    cases hnp
  have hmine : ∀ q j, q ≠ p → s.pc q ≠ .forking np j :=
    fun q j hq heq => hq (h.forked q p np j i heq hp)
  have hlocal : ∀ {t : State Page P} {j : ℕ}, t.pc p = .forking np j → t.pc np = .embryo →
      (∀ fd : Fin NOFILE, j ≤ fd → t.ofile np fd = none) → Local t p := by
    intro t j ht hembryo hnone
    unfold Local
    rw [ht]
    exact ⟨hembryo, hnone⟩
  unfold Ftable.forkRound
  split
  · next hi =>
    split
    · -- there is nothing to copy
      have hsame : s.setPc np .embryo = s := by rw [State.setPc, ← hnp, Function.update_eq_self]
      have hround := h.setPc_setPc (x := .forking np (i + 1)) hne (by simp [hp]) hmine
        (by rw [hp]; rfl) rfl (by rw [hp]; rfl) (y := .embryo) (by rw [hnp]) rfl (by rw [hnp]) ?_ ?_
        (by simp [eq_comm]) (by simp)
      · rw [hsame] at hround
        exact ⟨_, rfl, hround⟩
      · rw [hsame]
        exact hlocal (pc_setPc ..) ((Function.update_of_ne hne ..).trans hnp)
          fun fd hfd => hofile fd (Nat.le_of_succ_le hfd)
      · rw [hsame]
        exact local_of_free ((Function.update_of_ne hne ..).trans hnp) rfl
    · next f hf =>
      have hcounted₀ : s.counted (p, .inl ⟨i, hi⟩) = some f := by
        simp [counted, places, hp, Pc.masks, hf]
      have hpos := h.tally.pos hcounted₀
      have hdup : filedup s f = .ok (s.setFile f { s.file f with ref := (s.file f).ref + 1 }) :=
        if_neg (by omega)
      rw [hdup]
      dsimp only
      generalize hs' : ((s.setFile f { s.file f with ref := (s.file f).ref + 1 }).setFd np ⟨i, hi⟩
        (some f)).setPc p (.forking np (i + 1)) = s'
      refine ⟨s', rfl, ?_⟩
      have hself : s'.pc p = .forking np (i + 1) := by rw [← hs']; exact pc_setPc ..
      have hpc : ∀ q, q ≠ p → s'.pc q = s.pc q := by
        intro q hq
        rw [← hs']
        exact Function.update_of_ne hq ..
      have hofile' : ∀ q, q ≠ np → s'.ofile q = s.ofile q := by
        intro q hq
        rw [← hs']
        exact Function.update_of_ne hq ..
      have hchild : s'.ofile np = Function.update (s.ofile np) ⟨i, hi⟩ (some f) := by
        rw [← hs']
        exact Function.update_self ..
      have hfile : ∀ g, s'.file g =
          { s.file g with ref := if g = f then (s.file f).ref + 1 else (s.file g).ref } := by
        intro g
        rw [← hs']
        show Function.update s.file f _ g = _
        rcases eq_or_ne g f with rfl | hg
        · rw [Function.update_self, if_pos rfl]
        · rw [Function.update_of_ne hg, if_neg hg]
      have hcounted : s'.counted = Function.update s.counted (np, .inl ⟨i, hi⟩) (some f) := by
        funext x
        obtain ⟨q, y⟩ := x
        rcases eq_or_ne q np with rfl | hq
        · rw [counted, hpc q hne, hchild]
          cases y with
          | inl y =>
            rcases eq_or_ne y ⟨i, hi⟩ with rfl | hy
            · rw [Function.update_self]
              simp [places, hnp, Pc.masks]
            · rw [Function.update_of_ne fun heq => hy (Sum.inl.inj (Prod.ext_iff.mp heq).2)]
              simp [counted, places, hnp, Pc.masks, hy]
          | inr k =>
            rw [Function.update_of_ne fun heq => Sum.inr_ne_inl (Prod.ext_iff.mp heq).2]
            rfl
        · rw [Function.update_of_ne fun heq => hq (Prod.ext_iff.mp heq).1, counted,
            counted, hofile' q hq]
          rcases eq_or_ne q p with rfl | hqp
          · simp only [hself, hp]
            rfl
          · simp only [hpc q hqp]
      refine h.of_fork (by simp [hp]) hmine ?_ ?_ ?_ ?_ (by rw [← hs']; rfl) ?_ ?_ ?_ ?_ ?_
      · exact fun q hq hq' => ⟨hpc q hq, hofile' q hq'⟩
      · have href : (fun g => (s'.file g).ref) =
            Function.update (fun g => (s.file g).ref) f ((s.file f).ref + 1) := by
          funext g
          rw [hfile, Function.update_apply]
        rw [hcounted, href]
        refine h.tally.enter ?_ f
        simp [counted, places, hnp, Pc.masks, hofile ⟨i, hi⟩ le_rfl]
      · intro g
        rw [hfile]
        exact ⟨rfl, rfl, rfl, rfl⟩
      · intro g hg
        rw [hfile] at hg
        dsimp only at hg
        split_ifs at hg with hgf
        · omega
        · exact hg
      · intro q g hg
        rcases eq_or_ne q p with rfl | hq
        · rw [hself] at hg
          exact absurd hg List.not_mem_nil
        · rw [hpc q hq] at hg
          have hgf : g ≠ f := by
            rintro rfl
            exact h.not_fresh hcounted₀ hq hg
          rw [hfile]
          exact ⟨hg, if_neg hgf⟩
      · intro q
        rcases eq_or_ne q p with rfl | hq
        · rw [hself, hp]
          rfl
        · rw [hpc q hq]
      · refine hlocal hself ((hpc np hne).trans hnp) ?_
        intro fd hfd
        have hfdi : fd ≠ ⟨i, hi⟩ := by
          rintro rfl
          exact absurd hfd (Nat.not_succ_le_self i)
        rw [hchild, Function.update_of_ne hfdi]
        exact hofile fd (Nat.le_of_succ_le hfd)
      · exact local_of_free ((hpc np hne).trans hnp) rfl
      · intro q np' j hq
        rcases eq_or_ne q p with rfl | hqp
        · rw [hself] at hq
          cases hq
          exact .inr ⟨rfl, rfl⟩
        · exact .inl ⟨j, hpc q hqp ▸ hq⟩
  · -- the child can run
    have hchild : ((s.setPc np .idle).setPc p .idle).pc np = .idle :=
      (Function.update_of_ne hne ..).trans (Function.update_self ..)
    refine ⟨_, rfl, h.setPc_setPc hne (by simp [hp]) hmine (by rw [hp]; rfl) rfl
      (by rw [hp]; rfl) (by rw [hnp]; rfl) rfl (by rw [hnp]; rfl) ?_ ?_ (by simp) (by simp)⟩
    · exact local_of_free (pc_setPc ..) rfl
    · exact local_of_free hchild rfl

end Inv

end Xv6.Ftable
