import Xv6.Ftable.Refs

/-!
# The steps of the calls

What allocating, duplicating, filling in and closing a file do to the references, and what closing
an end does to a pipe.
-/

namespace Xv6.Ftable

open Core State

variable {Page P : Type} {s s' : State Page P} {p q np : P} {f g : Fin NFILE} {i : ℕ} {x : Place}
  {pi : Page} {pc : Pc Page P}

lemma token_eq (hends : ∀ q, (s'.pc q).ends = (s.pc q).ends)
    (hfile : ∀ g, (s'.file g).type = (s.file g).type ∧ (s'.file g).pipe = (s.file g).pipe ∧
      (s'.file g).writable = (s.file g).writable) : s'.token = s.token := by
  funext x
  cases x with
  | inl g => simp only [token, hfile g]
  | inr q => exact hends q

lemma openEnd_eq (hpipe : s'.pipe = s.pipe) : s'.OpenEnd = s.OpenEnd := by
  funext x
  simp only [OpenEnd, hpipe]

/-- The end of a pipe that a file has. -/
def File.token (x : File Page) : Option (Page × Bool) :=
  if x.type = .pipe then x.pipe.map fun pi => (pi, x.writable) else none

/-- At these points a call relies on nothing. -/
def Pc.free : Pc Page P → Bool
  | .embryo | .idle | .openHave _ _ _ | .pipeOne _ | .pipeTwo _ _ | .pipeReady _ _ | .closing _
  | .ending _ _ _ => true
  | _ => false

lemma local_of_free (hp : s.pc p = pc) (hpc : pc.free = true) : Local s p := by
  unfold Local
  rw [hp]
  cases pc <;> trivial

variable [DecidableEq P]

lemma others_setPc (s : State Page P) (p : P) (pc : Pc Page P) :
    ∀ q ≠ p, (s.setPc p pc).pc q = s.pc q ∧ (s.setPc p pc).ofile q = s.ofile q :=
  fun _ hq => ⟨Function.update_of_ne hq .., rfl⟩

lemma pc_setPc (s : State Page P) (p : P) (pc : Pc Page P) : (s.setPc p pc).pc p = pc :=
  Function.update_self ..

namespace Inv

/-- A process changes one file, and at most one of its references. -/
lemma of_file (h : Inv s) {y : File Page} {v : Option (Fin NFILE)} (hp : (s.pc p).plain = true)
    (hpc : pc.plain = true)
    (hplaces : places pc (s.ofile p) = Function.update (places (s.pc p) (s.ofile p)) x v)
    (htally : Tally (Function.update s.counted (p, x) v)
      (Function.update (fun g => (s.file g).ref) f y.ref))
    (hnot : ∀ q ≠ p, f ∉ (s.pc q).fresh) (hy : y.Ok)
    (hfresh : ∀ g ∈ pc.fresh, (Function.update s.file f y g).type = .none ∧
      (Function.update s.file f y g).ref = 1)
    (hends : Exact (fun _ => False) s.OpenEnd
      (Function.update (Function.update s.token (.inl f) y.token) (.inr p) pc.ends))
    (hlocal : Local ((s.setFile f y).setPc p pc) p) : Inv ((s.setFile f y).setPc p pc) := by
  have hothers := others_setPc (s.setFile f y) p pc
  have hself := pc_setPc (s.setFile f y) p pc
  refine h.of_process (C := (· = f)) hp (by rw [hself]; exact hpc) hothers
    (fun g hg => Function.update_of_ne hg ..) ?_ ?_ (by rw [hself]; exact hfresh) ?_ h.pipes hlocal
  · rintro g rfl
    rw [show ((s.setFile g y).setPc p pc).file g = y from Function.update_self ..]
    exact ⟨hy, hnot⟩
  · have href : (fun g => (Function.update s.file f y g).ref) =
        Function.update (fun g => (s.file g).ref) f y.ref :=
      funext fun g => Function.apply_update (fun _ => File.ref) s.file f y g
    rw [counted_update hothers (by rw [hself]; exact hplaces)]
    exact href ▸ htally
  · have htoken : ((s.setFile f y).setPc p pc).token =
        Function.update (Function.update s.token (.inl f) y.token) (.inr p) pc.ends := by
      funext z
      cases z with
      | inl g =>
        rw [Function.update_of_ne Sum.inl_ne_inr]
        rcases eq_or_ne g f with rfl | hg
        · rw [Function.update_self]
          exact congrArg File.token (Function.update_self ..)
        · rw [Function.update_of_ne fun heq => hg (Sum.inl.inj heq)]
          exact congrArg File.token (Function.update_of_ne hg ..)
      | inr q =>
        rcases eq_or_ne q p with rfl | hq
        · rw [Function.update_self]
          exact congrArg Pc.ends hself
        · rw [Function.update_of_ne fun heq => hq (Sum.inr.inj heq),
            Function.update_of_ne Sum.inr_ne_inl]
          exact congrArg Pc.ends (hothers q hq).1
    rw [htoken]
    exact hends

/-- The ends stay where they are. -/
lemma ends_update (h : Inv s) {y : File Page} (hy : y.token = (s.file f).token)
    (hends : pc.ends = (s.pc p).ends) : Exact (fun _ => False) s.OpenEnd
      (Function.update (Function.update s.token (.inl f) y.token) (.inr p) pc.ends) := by
  have hf : s.token (.inl f) = y.token := hy.symm
  have hp : s.token (.inr p) = pc.ends := hends.symm
  rw [← hf, Function.update_eq_self, ← hp, Function.update_eq_self]
  exact h.ends

/-- A free file is allocated. -/
lemma alloc (h : Inv s) (hp : (s.pc p).plain = true) (hf : (s.file f).ref = 0)
    (hx : places (s.pc p) (s.ofile p) x = none) (hpc : pc.plain = true)
    (hplaces : places pc (s.ofile p) = Function.update (places (s.pc p) (s.ofile p)) x (some f))
    (hfresh : ∀ g ∈ pc.fresh, g = f ∨ g ∈ (s.pc p).fresh) (hends : pc.ends = (s.pc p).ends)
    (hlocal : Local ((s.setFile f { s.file f with ref := 1 }).setPc p pc) p) :
      Inv ((s.setFile f { s.file f with ref := 1 }).setPc p pc) := by
  have hnone := h.none_of_ref f hf
  have hnot : ∀ q ≠ p, f ∉ (s.pc q).fresh := by
    intro q _ hq
    have := (h.fresh q f hq).2
    rw [hf] at this
    cases this
  refine h.of_file hp hpc hplaces ?_ hnot ⟨fun _ => hnone, h.pipeFile f⟩ ?_
    (h.ends_update rfl hends) hlocal
  · have henter := h.tally.enter (i := (p, x)) hx f
    rwa [hf, zero_add] at henter
  · intro g hg
    rcases eq_or_ne g f with rfl | hgf
    · rw [Function.update_self]
      exact ⟨hnone, rfl⟩
    · rw [Function.update_of_ne hgf]
      exact h.fresh p g ((hfresh g hg).resolve_left hgf)

/-- A descriptor that `dup` has copied is counted. -/
lemma dup (h : Inv s) {fd₀ fd : Fin NOFILE} (hp : s.pc p = .dupHave f fd₀ fd) :
    ∃ s', filedup s f = .ok s' ∧ Inv (s'.setPc p .idle) := by
  have hlocal := h.local_ p
  unfold Local at hlocal
  rw [hp] at hlocal
  obtain ⟨hfd₀, hne, hfd⟩ := hlocal
  have hcounted₀ : s.counted (p, .inl fd₀) = some f := by
    simp [counted, places, hp, Pc.masks, hne, hfd₀]
  have hpos := h.tally.pos hcounted₀
  have hx : s.counted (p, .inl fd) = none := by simp [counted, places, hp, Pc.masks]
  refine ⟨s.setFile f { s.file f with ref := (s.file f).ref + 1 }, if_neg (by omega), ?_⟩
  refine h.of_file (by rw [hp]; rfl) rfl ?_ (h.tally.enter hx f) (fun _ => h.not_fresh hcounted₀)
    ⟨fun (hzero : (s.file f).ref + 1 = 0) => by omega, h.pipeFile f⟩
    (fun g hg => absurd hg List.not_mem_nil) (h.ends_update rfl (by rw [hp]; rfl))
    (local_of_free (pc_setPc ..) rfl)
  funext y
  cases y with
  | inl y =>
    rcases eq_or_ne y fd with rfl | hy
    · rw [Function.update_self]
      simp [places, Pc.masks, hfd]
    · rw [Function.update_of_ne fun heq => hy (Sum.inl.inj heq)]
      simp [places, Pc.masks, hp, hy]
  | inr k =>
    rw [Function.update_of_ne Sum.inr_ne_inl, hp]
    rfl

omit [DecidableEq P] in
/-- What the first part of `fileclose` does to a file that has references. -/
lemma fileclose_cases (h : Inv s) (hpos : 0 < (s.file f).ref) :
    (1 < (s.file f).ref ∧
      fileclose s f = .ok (none, s.setFile f { s.file f with ref := (s.file f).ref - 1 })) ∨
    ((s.file f).ref = 1 ∧ (s.file f).type ≠ .pipe ∧
      fileclose s f = .ok (none, s.setFile f { s.file f with ref := 0, type := .none })) ∨
    ∃ pi, (s.file f).ref = 1 ∧ (s.file f).type = .pipe ∧ (s.file f).pipe = some pi ∧
      fileclose s f = .ok (some (pi, (s.file f).writable),
        s.setFile f { s.file f with ref := 0, type := .none }) := by
  unfold fileclose
  rw [if_neg (by omega)]
  by_cases hlast : 0 < (s.file f).ref - 1
  · rw [if_pos hlast]
    exact .inl ⟨by omega, rfl⟩
  rw [if_neg hlast]
  dsimp only
  have hone : (s.file f).ref = 1 := by omega
  by_cases htype : (s.file f).type = .pipe
  · obtain ⟨⟨pi, hpi⟩, -⟩ := h.pipeFile f htype
    exact .inr (.inr ⟨pi, hone, htype, hpi, by rw [htype, hpi]⟩)
  · refine .inr (.inl ⟨hone, htype, ?_⟩)
    split
    · next heq _ => exact absurd heq htype
    · next heq _ => exact absurd heq htype
    · rfl

/-- The last reference to a file goes: its end of a pipe, if it has one, goes to the call. -/
lemma close_last (h : Inv s) (hp : (s.pc p).plain = true) (hx : s.counted (p, x) = some f)
    (hone : (s.file f).ref = 1) (hpc : pc.plain = true)
    (hplaces : places pc (s.ofile p) = Function.update (places (s.pc p) (s.ofile p)) x none)
    (hends₀ : (s.pc p).ends = none) (hends : pc.ends = (s.file f).token) (hfresh : pc.fresh = [])
    (hlocal : Local ((s.setFile f { s.file f with ref := 0, type := .none }).setPc p pc) p) :
    Inv ((s.setFile f { s.file f with ref := 0, type := .none }).setPc p pc) := by
  refine h.of_file hp hpc hplaces ?_ (fun q hq => h.not_fresh hx hq) ⟨fun _ => rfl, ?_⟩ ?_ ?_ hlocal
  · have hleave := h.tally.leave hx
    rwa [hone, sub_self] at hleave
  · exact fun hpipe => FdType.noConfusion hpipe
  · rw [hfresh]
    exact fun g hg => absurd hg List.not_mem_nil
  · rw [hends, show File.token { s.file f with ref := 0, type := .none } = none from rfl]
    have hf : s.token (.inl f) = (s.file f).token := rfl
    have hp : s.token (.inr p) = none := hends₀
    cases htf : (s.file f).token with
    | none =>
      rw [← htf, ← hf, Function.update_eq_self, hf, htf, ← hp, Function.update_eq_self]
      exact h.ends
    | some b => exact h.ends.move (hf.trans htf) hp

/-- The first part of `fileclose`, for a reference that the process has. -/
lemma close (h : Inv s) (hp : (s.pc p).plain = true) (hx : s.counted (p, x) = some f)
    {pc : Option (Page × Bool) → Pc Page P} (hpc : ∀ o, (pc o).plain = true)
    (hplaces : ∀ o, places (pc o)
      (s.ofile p) = Function.update (places (s.pc p) (s.ofile p)) x none)
    (hends₀ : (s.pc p).ends = none) (hends : ∀ o, (pc o).ends = o) (hfresh : ∀ o, (pc o).fresh = [])
    (hlocal : ∀ o F, Local ((s.setFile f F).setPc p (pc o)) p) :
    ∃ o s', fileclose s f = .ok (o, s') ∧ Inv (s'.setPc p (pc o)) := by
  have hpos := h.tally.pos hx
  rcases h.fileclose_cases hpos with ⟨hmore, heq⟩ | ⟨hone, htype, heq⟩ | ⟨pi, hone, htype, hpi, heq⟩
  · refine ⟨_, _, heq, h.of_file hp (hpc none) (hplaces none) (h.tally.leave hx)
      (fun q hq => h.not_fresh hx hq) ⟨fun (hzero : (s.file f).ref - 1 = 0) => ?_, h.pipeFile f⟩ ?_
      (h.ends_update rfl (by rw [hends, hends₀])) (hlocal _ _)⟩
    · omega
    · rw [hfresh]
      exact fun g hg => absurd hg List.not_mem_nil
  · refine ⟨_, _, heq, h.close_last hp hx hone (hpc none) (hplaces none) hends₀ ?_ (hfresh none)
      (hlocal _ _)⟩
    rw [hends]
    exact (if_neg htype).symm
  · refine ⟨_, _, heq, h.close_last hp hx hone (hpc _) (hplaces _) hends₀ ?_ (hfresh _)
      (hlocal _ _)⟩
    rw [hends]
    simp [File.token, htype, hpi]

/-- `open` fills in its file. -/
lemma fillOpen (h : Inv s) {device : Bool} {omode : ℕ} (hp : s.pc p = .openFill f device omode) :
    Inv ((fillOpen s f device omode).setPc p .idle) := by
  have hmem : f ∈ (s.pc p).fresh := by rw [hp]; exact List.mem_singleton_self f
  obtain ⟨htype, hone⟩ := h.fresh p f hmem
  obtain ⟨x, hx⟩ := h.exists_place hmem
  have hpipe : (if device then FdType.device else .inode) ≠ .pipe := by
    split_ifs <;> exact FdType.noConfusion
  refine h.of_file (x := x) (by rw [hp]; rfl) rfl (Eq.trans ?_ (Function.update_eq_self ..).symm) ?_
    (fun _ => h.not_fresh hx) ⟨fun (hzero : (s.file f).ref = 0) => ?_, fun h => absurd h hpipe⟩
    (fun g hg => absurd hg List.not_mem_nil) (h.ends_update ?_ (by rw [hp]; rfl))
    (local_of_free (pc_setPc ..) rfl)
  · rw [hp]
    rfl
  · have hcounted : Function.update s.counted (p, x) (places (s.pc p) (s.ofile p) x) = s.counted :=
      Function.update_eq_self ..
    rw [Function.update_eq_self, hcounted]
    exact h.tally
  · rw [hone] at hzero
    cases hzero
  · simp [File.token, hpipe, htype]

end Inv

end Xv6.Ftable
