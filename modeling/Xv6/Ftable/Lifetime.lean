import Xv6.Ftable.Pipes

/-!
# The lifetime of files and pipes

Every step of every call keeps the references counted, and none panics. When no call is running, the
counter of a file is the number of descriptors that refer to it, and a pipe is there exactly as long
as one of its ends is.
-/

namespace Xv6.Ftable

open Core State

variable {Page P : Type} {s s' : State Page P} {p q np : P}
  {f f₀ f₁ g : Fin NFILE} {i : ℕ} {fd : Fin NOFILE} {x y : Place} {pi : Page} {pc : Pc Page P}

/-! ### Allocation -/

lemma freeFd_eq_some (h : freeFd s p = some fd) : s.ofile p fd = none := by
  simpa using List.find?_some h

lemma filealloc_cases (s : State Page P) :
    (∃ f, (s.file f).ref = 0 ∧ filealloc s = some (f, s.setFile f { s.file f with ref := 1 })) ∨
      filealloc s = none := by
  unfold filealloc
  split
  · next f hf => exact .inl ⟨f, by simpa using List.find?_some hf, rfl⟩
  · exact .inr rfl

/-- Where a call goes after the first part of `fileclose`. -/
def closeNext (todo : List (Fin NFILE)) : Option (Page × Bool) → Pc Page P
  | none => .closing todo
  | some (pi, writable) => .ending pi writable todo

/-- Where `exit` goes after the first part of `fileclose`. -/
def exitNext (fd : Fin NOFILE) : Option (Page × Bool) → Pc Page P
  | none => .exitClear fd
  | some (pi, writable) => .exitEnding fd pi writable

@[simp]
lemma masks_exitNext (fd : Fin NOFILE) (o : Option (Page × Bool)) (z : Fin NOFILE) :
    (exitNext fd o : Pc Page P).masks z = decide (z = fd) := by
  rcases o with _ | ⟨pi, w⟩ <;> rfl

@[simp]
lemma held_exitNext (fd : Fin NOFILE) (o : Option (Page × Bool)) (k : ℕ) :
    (exitNext fd o : Pc Page P).held k = none := by
  rcases o with _ | ⟨pi, w⟩ <;> rfl

@[simp]
lemma masks_closeNext (todo : List (Fin NFILE)) (o : Option (Page × Bool)) (z : Fin NOFILE) :
    (closeNext todo o : Pc Page P).masks z = false := by
  rcases o with _ | ⟨pi, w⟩ <;> rfl

@[simp]
lemma held_closeNext (todo : List (Fin NFILE)) (o : Option (Page × Bool)) (k : ℕ) :
    (closeNext todo o : Pc Page P).held k = todo.reverse[k]? := by
  rcases o with _ | ⟨pi, w⟩ <;> rfl

/-! ### References that move -/

section

variable [DecidableEq P]

/-- The places of one process instead of those that it had. -/
def extend (c : P × Place → Option (Fin NFILE)) (p : P) (l : Place → Option (Fin NFILE)) :
    P × Place → Option (Fin NFILE) := fun z => if z.1 = p then l z.2 else c z

lemma counted_extend (hothers : ∀ q ≠ p, s'.pc q = s.pc q ∧ s'.ofile q = s.ofile q) :
    s'.counted = extend s.counted p (places (s'.pc p) (s'.ofile p)) := by
  funext ⟨q, y⟩
  rw [extend]
  split_ifs with hq
  · obtain rfl : q = p := hq
    rfl
  · rw [counted, (hothers q hq).1, (hothers q hq).2]
    rfl

/-- A reference goes from one place of a process to another. -/
lemma tally_move {c : P × Place → Option (Fin NFILE)} {ref : Fin NFILE → ℤ}
    {l : Place → Option (Fin NFILE)} (h : Tally (extend c p l) ref) (hx : l x = some f)
      (hy : l y = none) :
    Tally (extend c p (Function.update (Function.update l x none) y (some f))) ref := by
  have hupdate : ∀ (l : Place → Option (Fin NFILE)) x v,
      extend c p (Function.update l x v) = Function.update (extend c p l) (p, x) v := by
    intro l x v
    funext ⟨q, z⟩
    by_cases hq : q = p
    · subst hq
      rcases eq_or_ne z x with rfl | hz
      · simp [extend]
      · simp [extend, hz]
    · rw [Function.update_of_ne fun heq => hq (Prod.ext_iff.mp heq).1]
      simp [extend, hq]
  rw [hupdate, hupdate]
  exact h.move (by simpa [extend] using hx) (by simpa [extend] using hy)

lemma others_setFd (s : State Page P) (p : P) (fd : Fin NOFILE) (o : Option (Fin NFILE))
    (pc : Pc Page P) :
    ∀ q ≠ p, ((s.setFd p fd o).setPc p pc).pc q = s.pc q ∧
      ((s.setFd p fd o).setPc p pc).ofile q = s.ofile q :=
  fun _ hq => ⟨Function.update_of_ne hq .., Function.update_of_ne hq ..⟩

lemma ofile_setFd (s : State Page P) (p : P) (fd : Fin NOFILE) (o : Option (Fin NFILE))
    (pc : Pc Page P) :
    ((s.setFd p fd o).setPc p pc).ofile p = Function.update (s.ofile p) fd o :=
      Function.update_self ..

end

namespace Inv

lemma of_fresh (h : Fresh s) : Inv s := by
  have hpc : ∀ p, (s.pc p).fresh = [] ∧ (s.pc p).ends = none ∧
    ∀ y, places (s.pc p) (s.ofile p) y = none := by
    intro p
    have hofile : s.ofile p = fun _ => none := funext (h.ofile p)
    rcases h.pc p with hp | hp <;> rw [hp, hofile] <;> exact ⟨rfl, rfl, by rintro (y | k) <;> rfl⟩
  have htoken : ∀ y, s.token y = none := by
    rintro (f | p)
    · simp [token, h.type f]
    · exact (hpc p).2.1
  have hcounted : ∀ f z, s.counted z ≠ some f := by
    intro f z hz
    rw [counted, (hpc z.1).2.2] at hz
    cases hz
  refine ⟨?_, fun f _ => h.type f, ?_, ?_, ?_, ?_, ?_, ?_⟩
  · intro f
    refine ⟨.of_ne (hcounted f), ?_⟩
    rw [population_of_ne (hcounted f)]
    exact h.ref f
  · intro p f hf
    rw [(hpc p).1] at hf
    exact absurd hf List.not_mem_nil
  · refine ⟨?_, ?_, ?_⟩
    · intro b
      constructor
      · rintro ⟨e, he, -⟩
        rw [h.pipe] at he
        cases he
      · rintro (hfalse | ⟨y, hy⟩)
        · exact hfalse.elim
        · rw [htoken] at hy
          cases hy
    · intro y y' b hy
      rw [htoken] at hy
      cases hy
    · exact fun _ hfalse => hfalse
  · intro f hf
    rw [h.type] at hf
    cases hf
  · intro pi e he
    rw [h.pipe] at he
    cases he
  · intro p
    unfold Local
    rcases h.pc p with hp | hp <;> rw [hp]
    · exact h.ofile p
    · trivial
  · intro p q np i j hp
    rcases h.pc p with hp' | hp' <;> rw [hp'] at hp <;> cases hp

variable [DecidableEq P] {a : Pc Page P}

/-- A process goes on without a change to its references. -/
lemma goOn (h : Inv s) (hp : s.pc p = a) (hfollows : a.Follows pc)
    (hplaces : places pc (s.ofile p) = places a (s.ofile p)) (hlocal : Local (s.setPc p pc) p) :
    Inv (s.setPc p pc) := by
  subst hp
  refine h.of_own (by rw [pc_setPc]; exact hfollows) (others_setPc s p pc) rfl rfl ?_ hlocal
  rw [counted_eq (others_setPc s p pc) (by rw [pc_setPc]; exact hplaces)]
  exact h.tally

/-- A process sets a descriptor. -/
lemma setFd (h : Inv s) (hp : s.pc p = a) {o : Option (Fin NFILE)}
    (hfollows : a.Follows pc)
    (htally : Tally (extend s.counted p (places pc (Function.update (s.ofile p) fd o)))
      fun f => (s.file f).ref) (hlocal : Local ((s.setFd p fd o).setPc p pc) p) :
    Inv ((s.setFd p fd o).setPc p pc) := by
  subst hp
  refine h.of_own (by rw [pc_setPc]; exact hfollows) (others_setFd s p fd o pc) rfl rfl ?_ hlocal
  rw [counted_extend (others_setFd s p fd o pc), pc_setPc, ofile_setFd]
  exact htally

lemma tally_self (h : Inv s) (p : P) :
    Tally (extend s.counted p (places (s.pc p) (s.ofile p))) fun f => (s.file f).ref := by
  have : s.counted = extend s.counted p (places (s.pc p) (s.ofile p)) :=
    counted_extend fun _ _ => ⟨rfl, rfl⟩
  rw [← this]
  exact h.tally

/-- A file in hand goes to a free descriptor. -/
lemma install (h : Inv s) (hp : s.pc p = a) {k : ℕ} (hfollows : a.Follows pc)
    (hfd : s.ofile p fd = none) (hheld : a.held k = some f) (hmask : a.masks = fun _ => false)
    (hmask' : pc.masks = fun _ => false)
    (hheld' : ∀ j, pc.held j = if j = k then none else a.held j)
    (hlocal : Local ((s.setFd p fd (some f)).setPc p pc) p) :
    Inv ((s.setFd p fd (some f)).setPc p pc) := by
  refine h.setFd hp hfollows ?_ hlocal
  subst hp
  have hmoved := tally_move (x := .inr k) (y := .inl fd) (h.tally_self p) hheld
    (by simp [places, hmask, hfd])
  convert hmoved using 2
  funext z
  cases z with
  | inl z =>
    rcases eq_or_ne z fd with rfl | hz
    · simp [places, hmask']
    · simp [places, hmask, hmask', hz]
  | inr j =>
    rcases eq_or_ne j k with rfl | hj
    · simp [places, hheld']
    · simp [places, hheld', hj]

/-- `sys_pipe` installs its descriptors, or closes its files. -/
lemma installPipe (h : Inv s) (hp : s.pc p = .pipeReady f₀ f₁) (copied : Bool) :
    Inv (installPipe s p f₀ f₁ copied) := by
  have hclosing : Inv (s.setPc p (.closing [f₀, f₁])) :=
    h.goOn hp ⟨rfl, rfl, List.nil_subset _, rfl⟩ rfl (local_of_free (pc_setPc ..) rfl)
  unfold Ftable.installPipe fdalloc
  split
  · exact hclosing
  · next fd₀ t ht =>
    split at ht
    · next fd hfd =>
      cases ht
      have hfd₀ := freeFd_eq_some hfd
      split
      · next hnone =>
        have hback : (s.setFd p fd₀ (some f₀)).setFd p fd₀ none = s := by
          simp only [State.setFd, Function.update_self, Function.update_idem]
          rw [← hfd₀, Function.update_eq_self, Function.update_eq_self]
        rw [hback]
        exact hclosing
      · next fd₁ t' ht' =>
        split at ht'
        · next fd' hfd' =>
          cases ht'
          have hfd₁ : (s.setFd p fd₀ (some f₀)).ofile p fd₁ = none := freeFd_eq_some hfd'
          have hne : fd₁ ≠ fd₀ := by
            rintro rfl
            simp [State.setFd] at hfd₁
          have hfd₁' : s.ofile p fd₁ = none := by simpa [State.setFd, hne] using hfd₁
          split_ifs
          · -- one reference after the other
            have hfirst : Inv ((s.setFd p fd₀ (some f₀)).setPc p (.closing [f₁])) := by
              refine h.install (k := 1) hp ⟨rfl, rfl, List.nil_subset _, rfl⟩ hfd₀ rfl rfl rfl ?_
                (local_of_free (pc_setPc ..) rfl)
              intro j
              rcases j with _ | _ | j
              · rfl
              · rfl
              · simp [Pc.held]
            have hsecond : Inv ((((s.setFd p fd₀ (some f₀)).setPc p (.closing [f₁])).setFd p fd₁
                (some f₁)).setPc p .idle) := by
              refine hfirst.install (k := 0) (pc_setPc ..) ⟨rfl, rfl, List.nil_subset _, rfl⟩ ?_ rfl
                rfl rfl ?_ (local_of_free (pc_setPc ..) rfl)
              · simpa [State.setPc] using hfd₁
              · intro j
                cases j with
                | zero => rfl
                | succ j => simp [Pc.held]
            simpa [State.setPc, State.setFd, Function.update_idem] using hsecond
          · have hback : ((((s.setFd p fd₀ (some f₀)).setFd p fd₁ (some f₁)).setFd p
                fd₀ none).setFd p fd₁ none) = s := by
              have hofile : Function.update (Function.update (Function.update (Function.update
                  (s.ofile p) fd₀ (some f₀)) fd₁ (some f₁)) fd₀ none) fd₁ none = s.ofile p := by
                funext z
                rcases eq_or_ne z fd₁ with rfl | hz₁
                · rw [Function.update_self, hfd₁']
                rcases eq_or_ne z fd₀ with rfl | hz₀
                · rw [Function.update_of_ne hz₁, Function.update_self, hfd₀]
                · simp only [Function.update_of_ne hz₁, Function.update_of_ne hz₀]
              simp only [State.setFd, Function.update_self, Function.update_idem, hofile,
                Function.update_eq_self]
            rw [hback]
            exact hclosing
        · cases ht'
    · cases ht

/-- A round of the loop of `exit`. -/
lemma exitRound (h : Inv s)
    (hp : s.pc p = .exiting i) : ∃ s', exitRound s p i = .ok s' ∧ Inv s' := by
  have hlocal := h.local_ p
  unfold Local at hlocal
  rw [hp] at hlocal
  unfold Ftable.exitRound
  split
  · next hi =>
    split
    · next hnone =>
      refine ⟨_, rfl, h.goOn hp ⟨rfl, rfl, List.nil_subset _, rfl⟩ rfl ?_⟩
      unfold Local
      rw [pc_setPc]
      intro fd hfd
      rcases Nat.lt_succ_iff_lt_or_eq.mp hfd with hlt | heq
      · exact hlocal fd hlt
      · obtain rfl : fd = ⟨i, hi⟩ := Fin.ext heq
        exact hnone
    · next f hf =>
      have hplaces : ∀ o, places (exitNext ⟨i, hi⟩ o : Pc Page P) (s.ofile p) =
          Function.update (places (s.pc p) (s.ofile p)) (.inl ⟨i, hi⟩) none := by
        intro o
        funext z
        cases z with
        | inl z =>
          rcases eq_or_ne z ⟨i, hi⟩ with rfl | hz
          · simp [places]
          · have hmasks : (Pc.exiting i : Pc Page P).masks z = false := rfl
            simp [places, hp, hmasks, hz]
        | inr k =>
          have hheld : (Pc.exiting i : Pc Page P).held k = none := rfl
          simp [places, hp, hheld]
      have hlocal' : ∀ o F, Local ((s.setFile f F).setPc p (exitNext ⟨i, hi⟩ o)) p := by
        intro o F
        unfold Local
        rw [pc_setPc]
        rcases o with _ | ⟨pi, w⟩ <;> exact hlocal
      obtain ⟨o, t, ht, hinv⟩ := h.close (by rw [hp]; rfl)
        (by simp [counted, places, hp, Pc.masks, hf]) (by rintro (_ | ⟨pi, w⟩) <;> rfl) hplaces
        (by rw [hp]; rfl) (by rintro (_ | ⟨pi, w⟩) <;> rfl) (by rintro (_ | ⟨pi, w⟩) <;> rfl)
        hlocal'
      rw [ht]
      rcases o with _ | ⟨pi, w⟩ <;> exact ⟨_, rfl, hinv⟩
  · next hi =>
    refine ⟨_, rfl, h.goOn hp ⟨rfl, rfl, List.nil_subset _, rfl⟩ rfl ?_⟩
    unfold Local
    rw [pc_setPc]
    exact fun fd => hlocal fd (fd.isLt.trans_le (Nat.not_lt.mp hi))

/-- A file in the list of those to close. -/
lemma closeRound (h : Inv s) {todo : List (Fin NFILE)} (hp : s.pc p = .closing (f :: todo)) :
    ∃ o s', fileclose s f = .ok (o, s') ∧ Inv (s'.setPc p (closeNext todo o)) := by
  have hplaces : ∀ o, places (closeNext todo o : Pc Page P) (s.ofile p) =
      Function.update (places (s.pc p) (s.ofile p)) (.inr todo.length) none := by
    intro o
    funext z
    cases z with
    | inl z =>
      have hmasks : (Pc.closing (f :: todo) : Pc Page P).masks z = false := rfl
      simp [places, hp, hmasks]
    | inr k =>
      have hheld : (Pc.closing (f :: todo) : Pc Page P).held k = (f :: todo).reverse[k]? := rfl
      rcases lt_trichotomy k todo.length with hk | rfl | hk
      · simp [places, hp, hheld, hk.ne, List.getElem?_append_left, hk]
      · simp [places]
      · simp [places, hp, hheld, hk.ne', hk.le, List.getElem?_append_right,
          Nat.sub_ne_zero_of_lt hk]
  exact h.close (by rw [hp]; rfl) (by simp [counted, places, hp, Pc.held])
    (by rintro (_ | ⟨pi, w⟩) <;> rfl) hplaces (by rw [hp]; rfl) (by rintro (_ | ⟨pi, w⟩) <;> rfl)
    (by rintro (_ | ⟨pi, w⟩) <;> rfl)
    fun o F => local_of_free (pc_setPc ..) (by rcases o with _ | ⟨pi, w⟩ <;> rfl)

variable [DecidableEq Page] {r : Except Panic (State Page P)}

/-- A step of a process in a call. -/
lemma advance (h : Inv s) {page : Option Page} {copied : Bool}
    (hr : advance s p page copied = some r) : ∃ s', r = .ok s' ∧ Inv s' := by
  unfold Ftable.advance at hr
  split at hr
  · cases hr
  · cases hr
  · cases hr
  · cases hr
  · next f device omode hp =>
    unfold fdalloc at hr
    cases hfd : freeFd s p with
    | none =>
      rw [hfd] at hr
      cases hr
      exact ⟨_, rfl, h.goOn hp ⟨rfl, rfl, List.nil_subset _, rfl⟩ rfl
        (local_of_free (pc_setPc ..) rfl)⟩
    | some fd =>
      rw [hfd] at hr
      cases hr
      refine ⟨_, rfl, h.install (k := 0) hp ⟨rfl, rfl, List.Subset.refl _, rfl⟩
        (freeFd_eq_some hfd) rfl rfl rfl ?_ ?_⟩
      · intro j
        match j with
        | 0 => rfl
        | j + 1 => simp [Pc.held]
      · unfold Local
        rw [pc_setPc]
        exact ⟨fd, by rw [ofile_setFd, Function.update_self]⟩
  · next f device omode hp =>
    cases hr
    exact ⟨_, rfl, h.fillOpen hp⟩
  · next f fd₀ fd hp =>
    obtain ⟨t, ht, hinv⟩ := h.dup hp
    rw [ht] at hr
    cases hr
    exact ⟨_, rfl, hinv⟩
  · next f₀ hp =>
    rcases filealloc_cases s with ⟨f₁, hf₁, halloc⟩ | halloc
    · rw [halloc] at hr
      cases hr
      refine ⟨_, rfl, h.alloc (x := .inr 0) (by rw [hp]; rfl) hf₁ (by rw [hp]; rfl) rfl ?_ ?_
        (by rw [hp]; rfl) (local_of_free (pc_setPc ..) rfl)⟩
      · funext z
        rw [hp]
        match z with
        | .inl z => rfl
        | .inr 0 => rfl
        | .inr 1 => rfl
        | .inr (k + 2) => simp [places, Pc.held]
      · rw [hp]
        intro g hg
        rcases List.mem_cons.mp hg with rfl | hg
        · exact .inr (List.mem_singleton_self _)
        · exact .inl (List.mem_singleton.mp hg)
    · rw [halloc] at hr
      cases hr
      refine ⟨_, rfl, h.of_own (by rw [hp, pc_setPc]; exact ⟨rfl, rfl, List.nil_subset _, rfl⟩)
        (others_setPc s p _) rfl rfl ?_ (local_of_free (pc_setPc ..) rfl)⟩
      have hmoved :=
        tally_move (x := .inr 1) (y := .inr 0) (f := f₀) (h.tally_self p) (by rw [hp]; rfl)
        (by rw [hp]; rfl)
      rw [counted_extend (others_setPc s p _), pc_setPc]
      convert hmoved using 2
      funext z
      rw [hp]
      match z with
      | .inl z => rfl
      | .inr 0 => rfl
      | .inr 1 => rfl
      | .inr (k + 2) => simp [places, Pc.held]
  · next f₀ f₁ hp =>
    cases page with
    | none =>
      cases hr
      exact ⟨_, rfl, h.goOn hp ⟨rfl, rfl, List.nil_subset _, rfl⟩ rfl
        (local_of_free (pc_setPc ..) rfl)⟩
    | some pi =>
      dsimp only at hr
      split_ifs at hr with hpi
      cases hr
      exact ⟨_, rfl, h.fillPipe hp (Option.isNone_iff_eq_none.mp hpi)⟩
  · next f₀ f₁ hp =>
    cases hr
    exact ⟨_, rfl, h.installPipe hp copied⟩
  · next hp =>
    cases hr
    exact ⟨_, rfl, h.goOn hp ⟨rfl, rfl, List.nil_subset _, rfl⟩
      (by funext z; cases z <;> simp [places, Pc.masks, Pc.held]) (local_of_free (pc_setPc ..) rfl)⟩
  · next f todo hp =>
    obtain ⟨o, t, ht, hinv⟩ := h.closeRound hp
    rw [ht] at hr
    rcases o with _ | ⟨pi, w⟩
    · cases hr
      exact ⟨_, rfl, hinv⟩
    · cases hr
      exact ⟨_, rfl, hinv⟩
  · next pi writable todo hp =>
    obtain ⟨t, ht, hinv⟩ : ∃ t, pipeclose s pi writable = .ok t ∧ Inv (t.setPc p (.closing todo)) :=
      h.closeEnd (by rw [hp]; rfl) (by rw [hp]; rfl) rfl (by rw [hp]; rfl) rfl rfl
        fun v => local_of_free (pc_setPc ..) rfl
    rw [ht] at hr
    cases hr
    exact ⟨_, rfl, hinv⟩
  · next np i hp =>
    obtain ⟨t, ht, hinv⟩ := h.forkRound hp
    cases hr
    exact ⟨t, ht, hinv⟩
  · next i hp =>
    obtain ⟨t, ht, hinv⟩ := h.exitRound hp
    cases hr
    exact ⟨t, ht, hinv⟩
  · next fd pi writable hp =>
    have hlocal := h.local_ p
    unfold Local at hlocal
    rw [hp] at hlocal
    obtain ⟨t, ht, hinv⟩ : ∃ t, pipeclose s pi writable = .ok t ∧ Inv (t.setPc p (.exitClear fd)) :=
      h.closeEnd (by rw [hp]; rfl) (by rw [hp]; rfl) rfl (by rw [hp]; rfl) rfl rfl
        fun v => by unfold Local; rw [pc_setPc]; exact hlocal
    rw [ht] at hr
    cases hr
    exact ⟨_, rfl, hinv⟩
  · next fd hp =>
    have hlocal := h.local_ p
    unfold Local at hlocal
    rw [hp] at hlocal
    cases hr
    refine ⟨_, rfl, h.setFd hp ⟨rfl, rfl, List.nil_subset _, rfl⟩ ?_ ?_⟩
    · convert h.tally_self p using 2
      funext z
      cases z with
      | inl z =>
        rcases eq_or_ne z fd with rfl | hz
        · simp [places, hp, Pc.masks]
        · simp [places, hp, Pc.masks, hz]
      | inr k => simp [places, hp, Pc.held]
    · unfold Local
      rw [pc_setPc]
      intro fd' hfd'
      rw [ofile_setFd]
      rcases eq_or_ne fd' fd with rfl | hne
      · rw [Function.update_self]
      · rw [Function.update_of_ne hne]
        exact hlocal fd' (lt_of_le_of_ne (Nat.lt_succ_iff.mp hfd') hne)

/-- Every event keeps the references counted, and none panics. -/
lemma step (h : Inv s) {e : Event Page P} (hr : step s e = some r) : ∃ s', r = .ok s' ∧ Inv s' := by
  cases e with
  | «open» p device omode =>
    simp only [Ftable.step] at hr
    split at hr
    · next hp =>
      rcases filealloc_cases s with ⟨f, hf, halloc⟩ | halloc
      · rw [halloc] at hr
        cases hr
        refine ⟨_, rfl, h.alloc (x := .inr 0) (by rw [hp]; rfl) hf (by rw [hp]; rfl) rfl ?_
          (fun g hg => .inl (List.mem_singleton.mp hg)) (by rw [hp]; rfl)
          (local_of_free (pc_setPc ..) rfl)⟩
        · funext z
          rw [hp]
          rcases z with z | _ | k
          · rfl
          · rfl
          · simp [places, Pc.held]
      · rw [halloc] at hr
        cases hr
        exact ⟨s, rfl, h⟩
    · cases hr
  | dup p fd₀ =>
    simp only [Ftable.step] at hr
    split at hr
    · next hp =>
      split at hr
      · cases hr
        exact ⟨s, rfl, h⟩
      · next f hf =>
        unfold fdalloc at hr
        cases hfd : freeFd s p with
        | none =>
          rw [hfd] at hr
          cases hr
          exact ⟨s, rfl, h⟩
        | some fd =>
          rw [hfd] at hr
          cases hr
          have hfree := freeFd_eq_some hfd
          have hne : fd₀ ≠ fd := by
            rintro rfl
            rw [hf] at hfree
            cases hfree
          refine ⟨_, rfl, h.setFd hp ⟨rfl, rfl, List.nil_subset _, rfl⟩ ?_ ?_⟩
          · convert h.tally_self p using 2
            funext z
            cases z with
            | inl z =>
              rcases eq_or_ne z fd with rfl | hz
              · simp [places, hp, Pc.masks, hfree]
              · simp [places, hp, Pc.masks, hz]
            | inr k => simp [places, hp, Pc.held]
          · unfold Local
            rw [pc_setPc]
            refine ⟨?_, hne, ?_⟩
            · rw [ofile_setFd, Function.update_of_ne hne, hf]
            · rw [ofile_setFd, Function.update_self]
    · cases hr
  | close p fd =>
    simp only [Ftable.step] at hr
    split at hr
    · next hp =>
      split at hr
      · cases hr
        exact ⟨s, rfl, h⟩
      · next f hf =>
        cases hr
        refine ⟨_, rfl, h.setFd hp ⟨rfl, rfl, List.nil_subset _, rfl⟩ ?_
          (local_of_free (pc_setPc ..) rfl)⟩
        · have hmoved := tally_move (x := .inl fd) (y := .inr 0) (f := f) (h.tally_self p)
            (by simp [places, hp, Pc.masks, hf]) (by rw [hp]; rfl)
          convert hmoved using 2
          funext z
          rcases z with z | _ | k
          · rcases eq_or_ne z fd with rfl | hz
            · simp [places, Pc.masks]
            · simp [places, hp, Pc.masks, hz]
          · rfl
          · simp [places, hp, Pc.held]
    · cases hr
  | pipe p =>
    simp only [Ftable.step] at hr
    split at hr
    · next hp =>
      rcases filealloc_cases s with ⟨f, hf, halloc⟩ | halloc
      · rw [halloc] at hr
        cases hr
        refine ⟨_, rfl, h.alloc (x := .inr 1) (by rw [hp]; rfl) hf (by rw [hp]; rfl) rfl ?_
          (fun g hg => .inl (List.mem_singleton.mp hg)) (by rw [hp]; rfl)
          (local_of_free (pc_setPc ..) rfl)⟩
        · funext z
          rw [hp]
          rcases z with z | _ | _ | k
          · rfl
          · rfl
          · rfl
          · simp [places, Pc.held]
      · rw [halloc] at hr
        cases hr
        exact ⟨s, rfl, h⟩
    · cases hr
  | fork p np =>
    simp only [Ftable.step] at hr
    split at hr
    · next hp hnp =>
      cases hr
      exact ⟨_, rfl, h.forkStart hp hnp⟩
    · cases hr
  | exit p =>
    simp only [Ftable.step] at hr
    split at hr
    · next hp =>
      cases hr
      refine ⟨_, rfl, h.goOn hp ⟨rfl, rfl, List.nil_subset _, rfl⟩ rfl ?_⟩
      unfold Local
      rw [pc_setPc]
      exact fun fd hfd => absurd hfd (Nat.not_lt_zero _)
    · cases hr
  | freeproc p =>
    simp only [Ftable.step] at hr
    split at hr
    · next hp =>
      have hlocal := h.local_ p
      unfold Local at hlocal
      rw [hp] at hlocal
      cases hr
      refine ⟨_, rfl, h.goOn hp ⟨rfl, rfl, List.nil_subset _, rfl⟩ rfl ?_⟩
      unfold Local
      rw [pc_setPc]
      exact hlocal
    · cases hr
  | step p page copied => exact h.advance hr

lemma of_reachable (h : (machine Page P).Reachable s) : Inv s := by
  refine h.invariant (fun s (hs : Fresh s) => of_fresh hs) ?_
  intro s e s' hs hnext
  obtain ⟨r, hr, hok⟩ := Option.bind_eq_some_iff.mp hnext
  obtain ⟨t, rfl, ht⟩ := hs.step hr
  obtain rfl := Option.some.inj hok
  exact ht

end Inv

/-! ### Between the calls -/

/-- No call is in progress. -/
def Quiet (s : State Page P) : Prop := ∀ p, s.pc p = .idle ∨ s.pc p = .unused ∨ s.pc p = .zombie

/-- The file `f` is an end of the pipe `pi`. -/
def IsEnd (s : State Page P) (pi : Page) (f : Fin NFILE) : Prop :=
  0 < (s.file f).ref ∧ (s.file f).type = .pipe ∧ (s.file f).pipe = some pi

/-- What holds of files and pipes when no call is in progress. -/
structure Settled (s : State Page P) : Prop where
  /-- The counters are the numbers of descriptors. -/
  ref : ∀ f, (s.file f).ref = population (fun x : P × Fin NOFILE => s.ofile x.1 x.2) (some f)
  /-- Unreferenced files have no type. -/
  type : ∀ f, (s.file f).ref = 0 → (s.file f).type = .none
  /-- An end is open exactly if a file is that end. -/
  readopen : ∀ pi e, s.pipe pi = some e →
    (e.readopen = true ↔ ∃ f, IsEnd s pi f ∧ (s.file f).readable = true)
  writeopen : ∀ pi e, s.pipe pi = some e →
    (e.writeopen = true ↔ ∃ f, IsEnd s pi f ∧ (s.file f).writable = true)
  /-- A page is freed when both ends are closed, and not before. -/
  kept : ∀ pi e, s.pipe pi = some e → e.readopen = true ∨ e.writeopen = true
  freed : ∀ pi, s.pipe pi = none → ∀ f, ¬IsEnd s pi f

lemma Quiet.places (h : Quiet s) (p : P) (y : Place) :
    places (s.pc p) (s.ofile p) y = y.elim (s.ofile p) fun _ => none := by
  rcases h p with hp | hp | hp <;> rw [hp] <;> cases y <;> rfl

lemma Quiet.ends (h : Quiet s) (p : P) : (s.pc p).ends = none := by
  rcases h p with hp | hp | hp <;> rw [hp] <;> rfl

namespace Inv

/-- The files with the open ends of a pipe. -/
lemma openEnd_iff (h : Inv s) (hquiet : Quiet s) (pi : Page) (b : Bool) :
    s.OpenEnd (pi, b) ↔ ∃ f, IsEnd s pi f ∧ (s.file f).writable = b := by
  rw [h.ends.used_iff]
  constructor
  · rintro (hfalse | ⟨f | p, hx⟩)
    · exact hfalse.elim
    · simp only [token] at hx
      split_ifs at hx with htype
      obtain ⟨pi', hpi', heq⟩ := Option.map_eq_some_iff.mp hx
      cases heq
      refine ⟨f, ⟨?_, htype, hpi'⟩, rfl⟩
      -- a file with a type has references
      have hne : (s.file f).ref ≠ 0 := by
        intro hzero
        rw [h.none_of_ref f hzero] at htype
        cases htype
      have hge : (s.file f).ref = population s.counted (some f) := (h.tally f).2
      rw [hge] at hne ⊢
      exact Int.natCast_pos.mpr (Nat.pos_of_ne_zero (Int.natCast_ne_zero.mp hne))
    · rw [show s.token (.inr p) = none from hquiet.ends p] at hx
      cases hx
  · rintro ⟨f, ⟨-, htype, hpi⟩, hb⟩
    exact .inr ⟨.inl f, by simp [token, htype, hpi, hb]⟩

lemma settled (h : Inv s) (hquiet : Quiet s) : Settled s := by
  refine ⟨?_, h.none_of_ref, ?_, ?_, h.pipes, ?_⟩
  · intro f
    refine (h.tally f).2.trans (congrArg Nat.cast ?_)
    -- only the descriptors are places
    have himage : {z | s.counted z = some f} =
        (fun x : P × Fin NOFILE => (x.1, (Sum.inl x.2 : Place))) ''
          {x | s.ofile x.1 x.2 = some f} := by
      ext ⟨p, y⟩
      simp only [Set.mem_ofPred_eq, counted, hquiet.places, Set.mem_image, Prod.exists,
        Prod.mk.injEq]
      cases y with
      | inl fd =>
        constructor
        · exact fun hfd => ⟨p, fd, hfd, rfl, rfl⟩
        · rintro ⟨q, fd', hfd', rfl, heq⟩
          cases heq
          exact hfd'
      | inr k =>
        constructor
        · exact fun hk => by cases hk
        · rintro ⟨q, fd', -, -, heq⟩
          cases heq
    have hinj : Function.Injective fun x : P × Fin NOFILE => (x.1, (Sum.inl x.2 : Place)) := by
      rintro ⟨p, fd⟩ ⟨q, fd'⟩ heq
      simp only [Prod.mk.injEq, Sum.inl.injEq] at heq
      rw [heq.1, heq.2]
    rw [population, himage, Set.ncard_image_of_injective _ hinj]
    rfl
  · intro pi e he
    have hiff := h.openEnd_iff hquiet pi false
    have hopen : s.OpenEnd (pi, false) ↔ e.readopen = true := by simp [OpenEnd, he]
    rw [← hopen, hiff]
    refine exists_congr fun f => and_congr_right fun hf => ?_
    rw [(h.pipeFile f hf.2.1).2]
    simp
  · intro pi e he
    have hopen : s.OpenEnd (pi, true) ↔ e.writeopen = true := by simp [OpenEnd, he]
    rw [← hopen, h.openEnd_iff hquiet pi true]
  · intro pi hpi f hf
    obtain ⟨e, he, -⟩ := (h.openEnd_iff hquiet pi (s.file f).writable).mpr ⟨f, hf, rfl⟩
    rw [hpi] at he
    cases he

end Inv

variable [DecidableEq Page] [DecidableEq P] in
/-- In every run of the calls no file or pipe is misused; and when no call is in progress, the
references are counted, and the pipes are there as long as their ends. -/
theorem files_and_pipes (h : (machine Page P).Reachable s) :
    (∀ e x, Ftable.step s e ≠ some (.error x)) ∧ (Quiet s → Settled s) := by
  have hinv := Inv.of_reachable h
  refine ⟨?_, hinv.settled⟩
  intro e x hx
  obtain ⟨t, ht, -⟩ := hinv.step hx
  cases ht

/-- The table at the start, with process 0. -/
def fresh (Page : Type) : State Page (Fin 2) where
  file := fun _ => ⟨.none, 0, false, false, none⟩
  ofile := fun _ _ => none
  pc := fun p => if p = 0 then .idle else .unused
  pipe := fun _ => none

lemma fresh_fresh : Fresh (fresh Page) := by
  refine ⟨fun _ => rfl, fun _ => rfl, fun _ _ => rfl, ?_, fun _ => rfl⟩
  intro p
  by_cases hp : p = 0
  · exact .inr (if_pos hp)
  · exact .inl (if_neg hp)

/-- Process 0 makes a pipe and closes its writing end. -/
def halfPipe : State Unit (Fin 2) :=
  ((machine Unit (Fin 2)).exec (fresh _)
    [.pipe 0, .step 0 none true, .step 0 (some ()) true, .step 0 none true,
      .close 0 ⟨1, by decide⟩, .step 0 none true, .step 0 none true,
        .step 0 none true]).getD (fresh _)

theorem files_and_pipes_halfPipe : (machine Unit (Fin 2)).Reachable halfPipe ∧ Quiet halfPipe ∧
    halfPipe.pipe () = some ⟨true, false⟩ ∧ Settled halfPipe := by
  have hreach : (machine Unit (Fin 2)).Reachable halfPipe :=
    .getD_exec fresh_fresh (by decide +kernel)
  have hquiet : Quiet halfPipe := by
    intro p
    fin_cases p
    · exact .inl rfl
    · exact .inr (.inl rfl)
  exact ⟨hreach, hquiet, by decide +kernel, (files_and_pipes hreach).2 hquiet⟩

end Xv6.Ftable
