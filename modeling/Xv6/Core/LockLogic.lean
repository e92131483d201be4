import Mathlib
import Xv6.Core.Threads

/-!
# Reasoning about threads with spinlocks

A rely-guarantee logic. A `Discipline` says what holds of the shared state while a lock is free, and
which updates a thread may make while it holds certain locks. `wp` is the weakest precondition of a
program that keeps to the discipline, whatever the other threads do meanwhile. If the code at every
label does, then in every interleaving the invariants hold: `Discipline.sound`.
-/

namespace Core

open Relation

variable {S : Sig}

/-- What the threads of `Y` may rely on and have to guarantee. -/
structure Discipline (Y : Threads S) where
  /-- Holds always. -/
  inv : S.State → Prop
  /-- Holds while the lock is free. -/
  lockInv : S.Lock → S.State → Prop
  /-- The updates that a thread may make while it holds these locks. -/
  guar : S.Thread → Set S.Lock → S.State → S.State → Prop
  /-- What a suspended thread finds when it is handed the lock. -/
  resumes : S.Thread → S.Lock → S.State → Prop
  /-- The locks that a thread may wait for while it holds these locks. -/
  order : S.Thread → Set S.Lock → S.Lock → Prop
  /-- The panics that may happen. -/
  panics : S.Panic → Prop
  /-- What holds at a label. -/
  pre : S.Label → S.Thread → Set S.Lock → S.State → Prop
  inv_of_guar : ∀ {t Hs s s'}, guar t Hs s s' → inv s → inv s'
  lockInv_of_guar : ∀ {t Hs s s' l}, guar t Hs s s' → inv s → l ∉ Hs → lockInv l s → lockInv l s'

/-- The locks that `t` holds. -/
def heldBy (owner : S.Lock → Option S.Thread) (t : S.Thread) : Set S.Lock := {l | owner l = some t}

section

variable {owner : S.Lock → Option S.Thread} {l : S.Lock} {t t' : S.Thread}

lemma mem_heldBy : l ∈ heldBy owner t ↔ owner l = some t := Iff.rfl

lemma heldBy_disjoint (h : t' ≠ t) : Disjoint (heldBy owner t) (heldBy owner t') := by
  rw [Set.disjoint_left]
  intro l hl hl'
  exact h (Option.some.inj (hl'.symm.trans hl))

variable [DecidableEq S.Lock]

/-- The thread gets the lock. -/
lemma heldBy_update_some :
    heldBy (Function.update owner l (some t)) t = insert l (heldBy owner t) := by
  ext l'
  simp only [mem_heldBy, Set.mem_insert_iff, Function.update_apply]
  by_cases hl : l' = l <;> simp [hl]

/-- The thread does not get the lock, and loses it if it had it. -/
lemma heldBy_update_ne {o : Option S.Thread} (ho : o ≠ some t) :
    heldBy (Function.update owner l o) t = heldBy owner t \ {l} := by
  ext l'
  simp only [mem_heldBy, Set.mem_sdiff, Set.mem_singleton_iff, Function.update_apply]
  by_cases hl : l' = l <;> simp [hl, ho]

lemma heldBy_update_of_notMem {o : Option S.Thread} (ho : o ≠ some t)
    (hl : l ∉ heldBy owner t) : heldBy (Function.update owner l o) t = heldBy owner t := by
  rw [heldBy_update_ne ho]
  exact Set.sdiff_singleton_eq_self hl

end

namespace Discipline

variable {Y : Threads S} (D : Discipline Y)

/-- An update by another thread, which holds other locks. -/
def Interference (t : S.Thread) (Hs : Set S.Lock) (s s' : S.State) : Prop :=
  D.inv s ∧ ∃ t', t' ≠ t ∧ ∃ Hs', Disjoint Hs Hs' ∧ D.guar t' Hs' s s'

/-- What other threads may do while `t` holds the locks `Hs`. -/
def Rely (t : S.Thread) (Hs : Set S.Lock) : S.State → S.State → Prop :=
  ReflTransGen (D.Interference t Hs)

/-- The rely is enough for the property. -/
def Stable (t : S.Thread) (Hs : Set S.Lock) (A : S.State → Prop) : Prop :=
  ∀ s s', D.inv s → A s → ∀ t', t' ≠ t → ∀ Hs', Disjoint Hs Hs' → D.guar t' Hs' s s' → A s'

variable {D} {α β : Type} {t : S.Thread} {Hs : Set S.Lock} {s s' : S.State}

lemma Stable.rely {A : S.State → Prop} (h : D.Stable t Hs A) (hs : A s) (hr : D.Rely t Hs s s') :
    A s' := by
  induction hr with
  | refl => exact hs
  | tail _ hstep ih =>
    obtain ⟨hinv, t', ht', Hs', hdisj, hguar⟩ := hstep
    exact h _ _ hinv ih t' ht' Hs' hdisj hguar

lemma Rely.trans {s'' : S.State} (h : D.Rely t Hs s s') (h' : D.Rely t Hs s' s'') :
    D.Rely t Hs s s'' :=
  ReflTransGen.trans h h'

/-- With fewer locks a thread has to expect more. -/
lemma Rely.mono {Hs' : Set S.Lock} (hsub : Hs' ⊆ Hs)
    (h : D.Rely t Hs s s') : D.Rely t Hs' s s' := by
  refine ReflTransGen.mono (fun a b hab => ?_) s s' h
  obtain ⟨hinv, t', ht', Hs'', hdisj, hguar⟩ := hab
  exact ⟨hinv, t', ht', Hs'', hdisj.mono_left hsub, hguar⟩

variable {l : S.Lock}

/-- What a lock protects does not change for its holder. -/
lemma Rely.lockInv (h : D.Rely t Hs s s') (hl : l ∈ Hs) (hs : D.lockInv l s) : D.lockInv l s' := by
  refine Stable.rely (fun a b hinv ha t' _ Hs' hdisj hguar => ?_) hs h
  exact D.lockInv_of_guar hguar hinv (Set.disjoint_left.mp hdisj hl) ha

variable {c : Conf S}

/-- An update of the shared state by `t`, seen by another thread. -/
lemma rely_single {t' : S.Thread} (hinv : D.inv c.state) (ht : t' ≠ t)
    {s' : S.State} (hg : D.guar t (heldBy c.owner t) c.state s') :
      D.Rely t' (heldBy c.owner t') c.state s' :=
  ReflTransGen.single ⟨hinv, t, ht.symm, heldBy c.owner t, heldBy_disjoint ht.symm, hg⟩

/-! ### Weakest preconditions -/

variable [DecidableEq S.Thread]

variable (D) in
/-- From the state `s`, with the locks `Hs`, the thread `t` keeps to the discipline while it runs
the program, and ends with `Q`. -/
def wp (t : S.Thread) : Prog S α → (α → Set S.Lock → S.State → Prop) → Set S.Lock → S.State → Prop
  | .ret a, Q, Hs, s => ∀ s', D.Rely t Hs s s' → D.inv s' → Q a Hs s'
  | .acquire l k, Q, Hs, s => ∀ s', D.Rely t Hs s s' → D.inv s' →
      D.order t Hs l ∧ l ∉ Hs ∧ (D.lockInv l s' → wp t k Q (insert l Hs) s')
  | .release l k, Q, Hs, s => ∀ s', D.Rely t Hs s s' → D.inv s' →
      l ∈ Hs ∧ D.lockInv l s' ∧ wp t k Q (Hs \ {l}) s'
  | .act f k, Q, Hs, s => ∀ s', D.Rely t Hs s s' → D.inv s' →
      D.guar t Hs s' (f s') ∧ Y.awaits (f s') = Y.awaits s' ∧ wp t (k s') Q Hs (f s')
  | .choose k, Q, Hs, s => ∀ c, wp t (k c) Q Hs s
  | .swtch l target f k, Q, Hs, s => ∀ s', D.Rely t Hs s s' → D.inv s' →
      Hs = {l} ∧ D.guar t Hs s' (f s') ∧ Y.awaits s' (target s') = some l ∧
        Y.awaits (f s') =
          Function.update (Function.update (Y.awaits s') (target s') none) t (some l) ∧
        D.resumes (target s') l (f s') ∧
        ∀ s'', D.Rely t ∅ (f s') s'' → D.inv s'' → D.resumes t l s'' → wp t k Q {l} s''
  | .goto e, _, Hs, s => ∀ s', D.Rely t Hs s s' → D.inv s' → D.pre e t Hs s'
  | .panic m, _, _, _ => D.panics m

variable {p : Prog S α} {f : S.State → S.State} {k : Prog S Empty} {c' : Conf S}
  {init : Conf S → Prop} {e : S.Thread × S.Choice}

/-- The weakest precondition is stable. -/
lemma wp_rely {Q : α → Set S.Lock → S.State → Prop} (h : D.wp t p Q Hs s) (hr : D.Rely t Hs s s') :
    D.wp t p Q Hs s' := by
  induction p with
  | choose k ih => exact fun c => ih c (h c)
  | panic m => exact h
  | ret | acquire | release | act | swtch | goto =>
    exact fun s'' hr' => h s'' (ReflTransGen.trans hr hr')

lemma wp_mono {Q Q' : α → Set S.Lock → S.State → Prop} (hQ : ∀ a Hs s, Q a Hs s → Q' a Hs s)
    (h : D.wp t p Q Hs s) : D.wp t p Q' Hs s := by
  induction p generalizing Hs s with
  | ret a => exact fun s' hr hi => hQ a Hs s' (h s' hr hi)
  | acquire l k ih =>
    intro s' hr hi
    obtain ⟨ho, hl, hk⟩ := h s' hr hi
    exact ⟨ho, hl, fun hR => ih (hk hR)⟩
  | release l k ih =>
    intro s' hr hi
    obtain ⟨hl, hR, hk⟩ := h s' hr hi
    exact ⟨hl, hR, ih hk⟩
  | act f k ih =>
    intro s' hr hi
    obtain ⟨hg, ha, hk⟩ := h s' hr hi
    exact ⟨hg, ha, ih s' hk⟩
  | choose k ih => exact fun c => ih c (h c)
  | swtch l target f k ih =>
    intro s' hr hi
    obtain ⟨hHs, hg, ha, ha', hres, hk⟩ := h s' hr hi
    exact ⟨hHs, hg, ha, ha', hres, fun s'' hr' hi' hres' => ih (hk s'' hr' hi' hres')⟩
  | goto e => exact h
  | panic m => exact h

/-- The rule for sequential composition. -/
lemma wp_bind {g : α → Prog S β} {Q : β → Set S.Lock → S.State → Prop} (hs : D.inv s)
    (h : D.wp t p (fun a Hs s => D.inv s → D.wp t (g a) Q Hs s) Hs s) :
    D.wp t (p >>= g) Q Hs s := by
  induction p generalizing Hs s with
  | ret a => exact h s .refl hs hs
  | acquire l k ih =>
    intro s' hr hi
    obtain ⟨ho, hl, hk⟩ := h s' hr hi
    exact ⟨ho, hl, fun hR => ih hi (hk hR)⟩
  | release l k ih =>
    intro s' hr hi
    obtain ⟨hl, hR, hk⟩ := h s' hr hi
    exact ⟨hl, hR, ih hi hk⟩
  | act f k ih =>
    intro s' hr hi
    obtain ⟨hg, ha, hk⟩ := h s' hr hi
    exact ⟨hg, ha, ih s' (D.inv_of_guar hg hi) hk⟩
  | choose k ih => exact fun c => ih c hs (h c)
  | swtch l target f k ih =>
    intro s' hr hi
    obtain ⟨hHs, hg, ha, ha', hres, hk⟩ := h s' hr hi
    exact ⟨hHs, hg, ha, ha', hres, fun s'' hr' hi' hres' => ih hi' (hk s'' hr' hi' hres')⟩
  | goto e => exact h
  | panic m => exact h

/-! ### Rules for the commands -/

variable {target : S.State → S.Thread}

section

variable {g : Unit → Prog S β} {Q : β → Set S.Lock → S.State → Prop}

lemma wp_ret {a : β} (h : ∀ s', D.Rely t Hs s s' → D.inv s' → Q a Hs s') :
    D.wp t (pure a) Q Hs s :=
  h

lemma wp_lock (ho : D.order t Hs l) (hl : l ∉ Hs)
    (h : ∀ s', D.Rely t Hs s s' → D.inv s' → D.lockInv l s' → D.wp t (g ()) Q (insert l Hs) s') :
    D.wp t (Prog.lock l >>= g) Q Hs s :=
  fun s' hr hi => ⟨ho, hl, h s' hr hi⟩

lemma wp_unlock {Hs' : Set S.Lock} (hl : l ∈ Hs) (hHs : Hs \ {l} = Hs')
    (h : ∀ s', D.Rely t Hs s s' → D.inv s' → D.lockInv l s' ∧ D.wp t (g ()) Q Hs' s') :
    D.wp t (Prog.unlock l >>= g) Q Hs s :=
  fun s' hr hi => ⟨hl, hHs ▸ h s' hr hi⟩

lemma wp_update {r : S.State → α} {g : α → Prog S β}
    (h : ∀ s', D.Rely t Hs s s' → D.inv s' →
      D.guar t Hs s' (f s') ∧ Y.awaits (f s') = Y.awaits s' ∧
        (D.inv (f s') → D.wp t (g (r s')) Q Hs (f s'))) :
    D.wp t (Prog.update f r >>= g) Q Hs s := by
  intro s' hr hi
  obtain ⟨hg, ha, hk⟩ := h s' hr hi
  exact ⟨hg, ha, hk (D.inv_of_guar hg hi)⟩

lemma wp_choice {r : S.Choice → α} {g : α → Prog S β} (h : ∀ a, D.wp t (g a) Q Hs s) :
    D.wp t (Prog.choice r >>= g) Q Hs s :=
  fun c => h (r c)

/-- A context switch to `t'`. -/
lemma wp_swtch
    (h : ∀ s', D.Rely t {l} s s' → D.inv s' → ∃ t', target s' = t' ∧ D.guar t {l} s' (f s') ∧
      Y.awaits s' t' = some l ∧
      Y.awaits (f s') = Function.update (Function.update (Y.awaits s') t' none) t (some l) ∧
      D.resumes t' l (f s') ∧
      ∀ s'', D.Rely t ∅ (f s') s'' → D.inv s'' → D.resumes t l s'' → D.wp t (g ()) Q {l} s'') :
    D.wp t (Prog.swtch l target f (.ret ()) >>= g) Q {l} s := by
  intro s' hr hi
  obtain ⟨t', rfl, hg, ha, ha', hres, hk⟩ := h s' hr hi
  exact ⟨rfl, hg, ha, ha', hres, hk⟩

/-- The loop over a list, with an invariant about the elements that are left. -/
lemma wp_forM {f : α → Prog S PUnit} {A : List α → S.State → Prop}
    (hstable : ∀ s s', A [] s → D.Rely t Hs s s' → A [] s')
    (hstep : ∀ a as s, D.inv s → A (a :: as) s →
      D.wp t (f a) (fun _ Hs' s' => Hs' = Hs ∧ A as s') Hs s)
    {as : List α} (hs : D.inv s) (h : A as s) :
    D.wp t (as.forM f) (fun _ Hs' s' => Hs' = Hs ∧ A [] s') Hs s := by
  induction as generalizing s with
  | nil => exact fun s' hr _ => ⟨rfl, hstable s s' h hr⟩
  | cons a as ih =>
    refine wp_bind hs (wp_mono ?_ (hstep a as s hs h))
    rintro - Hs' s' ⟨rfl, hA⟩ hi
    exact ih hi hA

end

/-! ### Soundness -/

variable (D) in
/-- The program of a thread, suspended or not, keeps to the discipline from here on. -/
def Keeps (c : Conf S) (t : S.Thread) : Prop :=
  match Y.awaits c.state t with
  | none => D.wp t (c.prog t) (fun e _ _ => e.elim) (heldBy c.owner t) c.state
  | some l => heldBy c.owner t = ∅ ∧ ∀ s', D.Rely t ∅ c.state s' → D.inv s' → D.resumes t l s' →
      D.wp t (c.prog t) (fun e _ _ => e.elim) {l} s'

variable (D) in
/-- The invariant of all interleavings. -/
structure Good (c : Conf S) : Prop where
  inv : D.inv c.state
  lockInv : ∀ l, c.owner l = none → D.lockInv l c.state
  keeps : ∀ t, D.Keeps c t

lemma Good.wp (h : D.Good c) (ht : Y.awaits c.state t = none) :
    D.wp t (c.prog t) (fun e _ _ => e.elim) (heldBy c.owner t) c.state := by
  have := h.keeps t
  rwa [Keeps, ht] at this

/-- A thread that waits for a lock does so in the order of the discipline. -/
lemma Good.order (h : D.Good c) (ht : Y.awaits c.state t = none) (hp : c.prog t = .acquire l k) :
    D.order t (heldBy c.owner t) l := by
  have hwp := h.wp ht
  rw [hp] at hwp
  exact (hwp c.state .refl h.inv).1

/-- A suspended thread holds no locks. -/
lemma Good.heldBy_eq_empty (h : D.Good c) (ht : Y.awaits c.state t = some l) :
    heldBy c.owner t = ∅ := by
  have := h.keeps t
  rw [Keeps, ht] at this
  exact this.1

/-- What another thread does, without giving `t` a lock or taking one from it. -/
lemma Keeps.other (h : D.Keeps c t) (hprog : c'.prog t = c.prog t)
    (hheld : heldBy c'.owner t = heldBy c.owner t)
    (hawaits : Y.awaits c'.state t = Y.awaits c.state t)
    (hr : D.Rely t (heldBy c.owner t) c.state c'.state) : D.Keeps c' t := by
  unfold Keeps at h ⊢
  rw [hawaits, hprog, hheld]
  cases hw : Y.awaits c.state t with
  | none =>
    rw [hw] at h
    exact wp_rely h hr
  | some l =>
    rw [hw] at h
    obtain ⟨hempty, h⟩ := h
    rw [hempty] at hr
    exact ⟨hempty, fun s' hr' => h s' (ReflTransGen.trans hr hr')⟩

/-- A change of the program alone. -/
lemma Good.setProg (h : D.Good c) (ht : Y.awaits c.state t = none)
    (hk : D.wp t k (fun e _ _ => e.elim) (heldBy c.owner t) c.state) :
    D.Good { c with prog := Function.update c.prog t k } := by
  refine ⟨h.inv, h.lockInv, fun t' => ?_⟩
  by_cases htt : t' = t
  · subst htt
    simp only [Keeps, ht, Function.update_self]
    exact hk
  · exact (h.keeps t').other (Function.update_of_ne htt ..) rfl rfl .refl

lemma Good.act (h : D.Good c) (ht : Y.awaits c.state t = none)
    {k : S.State → Prog S Empty} (hp : c.prog t = .act f k) :
    D.Good { c with
      state := f c.state
      prog := Function.update c.prog t (k c.state) } := by
  have hwp := h.wp ht
  rw [hp] at hwp
  obtain ⟨hg, ha, hk⟩ := hwp c.state .refl h.inv
  refine ⟨D.inv_of_guar hg h.inv, fun l hl => ?_, fun t' => ?_⟩
  · refine D.lockInv_of_guar hg h.inv ?_ (h.lockInv l hl)
    dsimp only at hl
    simp [mem_heldBy, hl]
  · by_cases htt : t' = t
    · subst htt
      simp only [Keeps, ha, ht, Function.update_self]
      exact hk
    · exact (h.keeps t').other (Function.update_of_ne htt ..) rfl (congrFun ha t')
        (rely_single h.inv htt hg)

variable [DecidableEq S.Lock]

section

variable (h : D.Good c) (ht : Y.awaits c.state t = none)
include h ht

lemma Good.acquire (hp : c.prog t = .acquire l k)
    (hl : c.owner l = none) :
    D.Good { c with
      owner := Function.update c.owner l (some t)
      prog := Function.update c.prog t k } := by
  have hwp := h.wp ht
  rw [hp] at hwp
  obtain ⟨-, -, hk⟩ := hwp c.state .refl h.inv
  refine ⟨h.inv, fun l' hl' => h.lockInv l' ?_, fun t' => ?_⟩
  · by_cases hll : l' = l
    · rw [hll]
      exact hl
    · simpa [Function.update_of_ne hll] using hl'
  · by_cases htt : t' = t
    · subst htt
      simp only [Keeps, ht, Function.update_self, heldBy_update_some]
      exact hk (h.lockInv l hl)
    · refine (h.keeps t').other (Function.update_of_ne htt ..) ?_ rfl .refl
      refine heldBy_update_of_notMem (fun heq => htt (Option.some.inj heq).symm) ?_
      simp [mem_heldBy, hl]

lemma Good.release (hp : c.prog t = .release l k) :
    D.Good { c with
      owner := Function.update c.owner l none
      prog := Function.update c.prog t k } := by
  have hwp := h.wp ht
  rw [hp] at hwp
  obtain ⟨hl, hR, hk⟩ := hwp c.state .refl h.inv
  refine ⟨h.inv, fun l' hl' => ?_, fun t' => ?_⟩
  · by_cases hll : l' = l
    · rw [hll]
      exact hR
    · apply h.lockInv
      simpa [Function.update_of_ne hll] using hl'
  · by_cases htt : t' = t
    · subst htt
      simp only [Keeps, ht, Function.update_self, heldBy_update_ne (Option.some_ne_none t').symm]
      exact hk
    · refine (h.keeps t').other (Function.update_of_ne htt ..) ?_ rfl .refl
      refine heldBy_update_of_notMem (by simp) fun hl' => ?_
      exact (Set.disjoint_left.mp (heldBy_disjoint htt)) hl hl'

lemma Good.swtch
    (hp : c.prog t = .swtch l target f k) :
    D.Good { c with
      state := f c.state
      owner := Function.update c.owner l (some (target c.state))
      prog := Function.update c.prog t k } := by
  have hwp := h.wp ht
  rw [hp] at hwp
  obtain ⟨hheld, hg, ha, ha', hres, hk⟩ := hwp c.state .refl h.inv
  have hinv := D.inv_of_guar hg h.inv
  have hl : l ∈ heldBy c.owner t := by rw [hheld]; rfl
  have hne : target c.state ≠ t := by
    intro heq
    rw [heq, ht] at ha
    exact absurd ha (by simp)
  refine ⟨hinv, fun l' hl' => ?_, fun t' => ?_⟩
  · have hll : l' ≠ l := by
      rintro rfl
      simp at hl'
    simp only [Function.update_of_ne hll] at hl'
    refine D.lockInv_of_guar hg h.inv ?_ (h.lockInv l' hl')
    simp [hheld, hll]
  · by_cases htt : t' = t
    · -- the thread is suspended now
      subst htt
      simp only [Keeps, ha', Function.update_self]
      refine ⟨?_, fun s' hr hi hres' => hk s' hr hi hres'⟩
      rw [heldBy_update_ne (fun heq => hne (Option.some.inj heq)), hheld]
      simp
    · by_cases htarget : t' = target c.state
      · -- the target was waiting for this lock
        subst htarget
        have hsusp := h.keeps (target c.state)
        simp only [Keeps, ha] at hsusp
        simp only [Keeps, ha', Function.update_of_ne hne, Function.update_self]
        rw [heldBy_update_some, hsusp.1]
        have hr := rely_single h.inv hne hg
        rw [hsusp.1] at hr
        simpa using hsusp.2 (f c.state) hr hinv hres
      · refine (h.keeps t').other (Function.update_of_ne htt ..) ?_ ?_ (rely_single h.inv htt hg)
        · refine heldBy_update_of_notMem (fun heq => htarget (Option.some.inj heq).symm) ?_
          exact fun hl' => (Set.disjoint_left.mp (heldBy_disjoint htt)) hl hl'
        · simp [ha', Function.update_of_ne htt, Function.update_of_ne htarget]

end

variable (D) in
/-- The code at every label keeps to the discipline. -/
def CodeOk : Prop :=
  ∀ e t Hs s, D.inv s → D.pre e t Hs s → D.wp t (Y.code e) (fun e _ _ => e.elim) Hs s

lemma Good.next (hcode : D.CodeOk) (h : D.Good c) (hnext : (Y.machine init).next c e = some c') :
    D.Good c' := by
  obtain ⟨t, ch⟩ := e
  simp only [Threads.machine, Option.ite_none_right_eq_some] at hnext
  obtain ⟨ht, hnext⟩ := hnext
  have hwp := h.wp ht
  unfold Threads.instr at hnext
  cases hp : c.prog t with
  | ret a => exact a.elim
  | acquire l k =>
    simp only [hp, Option.ite_none_right_eq_some, Option.some.injEq] at hnext
    obtain ⟨hl, rfl⟩ := hnext
    exact h.acquire ht hp hl
  | release l k =>
    simp only [hp, Option.some.injEq] at hnext
    subst hnext
    exact h.release ht hp
  | act f k =>
    simp only [hp, Option.some.injEq] at hnext
    subst hnext
    exact h.act ht hp
  | choose k =>
    simp only [hp, Option.some.injEq] at hnext
    subst hnext
    rw [hp] at hwp
    exact h.setProg ht (hwp ch)
  | swtch l target f k =>
    simp only [hp, Option.some.injEq] at hnext
    subst hnext
    exact h.swtch ht hp
  | goto e =>
    simp only [hp, Option.some.injEq] at hnext
    subst hnext
    rw [hp] at hwp
    exact h.setProg ht (hcode e t _ _ h.inv (hwp c.state .refl h.inv))
  | panic m => simp [hp] at hnext

/-- In every interleaving of threads that keep to the discipline, the invariants hold. -/
theorem sound (hcode : D.CodeOk) (hinit : ∀ c, init c → D.Good c)
    (h : (Y.machine init).Reachable c) : D.Good c :=
  h.invariant hinit fun _ _ _ hc hnext => hc.next hcode hnext

/-- Every step is one that the thread may make with the locks it holds. -/
lemma Good.guar (h : D.Good c) (hnext : (Y.machine init).next c e = some c') :
    c'.state = c.state ∨ D.guar e.1 (heldBy c.owner e.1) c.state c'.state := by
  obtain ⟨t, ch⟩ := e
  simp only [Threads.machine, Option.ite_none_right_eq_some] at hnext
  obtain ⟨ht, hnext⟩ := hnext
  have hwp := h.wp ht
  unfold Threads.instr at hnext
  cases hp : c.prog t with
  | ret a => exact a.elim
  | acquire l k =>
    simp only [hp, Option.ite_none_right_eq_some, Option.some.injEq] at hnext
    obtain ⟨-, rfl⟩ := hnext
    exact .inl rfl
  | act f k =>
    simp only [hp, Option.some.injEq] at hnext
    subst hnext
    rw [hp] at hwp
    exact .inr (hwp c.state .refl h.inv).1
  | swtch l target f k =>
    simp only [hp, Option.some.injEq] at hnext
    subst hnext
    rw [hp] at hwp
    exact .inr (hwp c.state .refl h.inv).2.1
  | release | choose | goto =>
    simp only [hp, Option.some.injEq] at hnext
    subst hnext
    exact .inl rfl
  | panic m => simp [hp] at hnext

/-- How the locks of a thread change in one step: it may lose some, it may take one in the order of
the discipline, or it is handed one and holds no other. -/
lemma Good.heldBy_cases (h : D.Good c)
    (hnext : (Y.machine init).next c e = some c') (t' : S.Thread) :
    heldBy c'.owner t' ⊆ heldBy c.owner t' ∨
      (∃ l, heldBy c'.owner t' = insert l (heldBy c.owner t') ∧ D.order t' (heldBy c.owner t') l) ∨
      ∃ l, heldBy c'.owner t' = {l} := by
  obtain ⟨t, ch⟩ := e
  simp only [Threads.machine, Option.ite_none_right_eq_some] at hnext
  obtain ⟨ht, hnext⟩ := hnext
  have hwp := h.wp ht
  -- giving a lock to somebody else takes nothing away from the others but that lock
  have hlose : ∀ (l : S.Lock) (o : Option S.Thread), o ≠ some t' →
      heldBy (Function.update c.owner l o) t' ⊆ heldBy c.owner t' := by
    intro l o ho
    rw [heldBy_update_ne ho]
    exact Set.sdiff_subset
  unfold Threads.instr at hnext
  cases hp : c.prog t with
  | ret a => exact a.elim
  | acquire l k =>
    simp only [hp, Option.ite_none_right_eq_some, Option.some.injEq] at hnext
    obtain ⟨-, rfl⟩ := hnext
    by_cases htt : t' = t
    · subst htt
      exact .inr (.inl ⟨l, heldBy_update_some, h.order ht hp⟩)
    · exact .inl (hlose l _ fun heq => htt (Option.some.inj heq).symm)
  | release l k =>
    simp only [hp, Option.some.injEq] at hnext
    subst hnext
    exact .inl (hlose l _ (Option.some_ne_none t').symm)
  | swtch l target f k =>
    simp only [hp, Option.some.injEq] at hnext
    subst hnext
    rw [hp] at hwp
    obtain ⟨-, -, ha, -⟩ := hwp c.state .refl h.inv
    by_cases htt : t' = target c.state
    · subst htt
      refine .inr (.inr ⟨l, ?_⟩)
      rw [heldBy_update_some, h.heldBy_eq_empty ha, insert_empty_eq]
    · exact .inl (hlose l _ fun heq => htt (Option.some.inj heq).symm)
  | act | choose | goto =>
    simp only [hp, Option.some.injEq] at hnext
    subst hnext
    exact .inl subset_rfl
  | panic m => simp [hp] at hnext

end Discipline

end Core
