import Xv6.Sched.Discipline

/-!
# What a thread may rely on

The discipline of the kernel, and which facts the other threads leave alone: what the locks of a
thread protect, and what only the thread itself changes.
-/

namespace Xv6.Sched

open Core Relation

variable {H : Type}

/-! ### What a process knows -/

/-- How far a process has come in creating another one: the slot, whether its context is set up,
and its parent so far. -/
structure Creation where
  slot : Fin NPROC
  fresh : Bool
  parent : Option (Fin NPROC)

/-- What the thread of process `p` knows from the time it starts. The argument `o` is the process
that it is creating, if any. -/
structure Ours (p : Fin NPROC) (o : Option Creation) (s : State H) : Prop where
  alive : (s.slot p).Alive
  fresh : (s.slot p).fresh = false
  creates : ∀ i, (s.slot i).creator = some p → ∃ c ∈ o, c.slot = i
  child : ∀ c ∈ o, c.slot ≠ p ∧ (s.slot c.slot).creator = some p ∧
    (s.slot c.slot).fresh = c.fresh ∧ (s.slot c.slot).parent = c.parent

/-- What it knows while a hart executes it. -/
structure OnCpu (p : Fin NPROC) (o : Option Creation) (s : State H) : Prop extends Ours p o s where
  running : (s.slot p).state = .running
  hart : (s.slot p).hart ≠ none
  drowsy : (s.slot p).drowsy = none

/-- The state in which a scheduler switches to the process. -/
structure Resumed (p : Fin NPROC) (s : State H) : Prop where
  running : (s.slot p).state = .running
  hart : (s.slot p).hart ≠ none
  drowsy : (s.slot p).drowsy = none

/-- The state in which a process switches back to the scheduler. -/
structure Returned (c : H) (b : Fin NPROC) (s : State H) : Prop where
  cpu : s.cpu c = some b
  hart : (s.slot b).hart = none
  not_running : (s.slot b).state ≠ .running
  drowsy : (s.slot b).drowsy = none

/-- What a slot's thread knows that has not started yet, or whose process has exited. -/
structure Unstarted (p : Fin NPROC) (s : State H) : Prop where
  dormant : (s.slot p).Dormant
  creates : ∀ i, (s.slot i).creator ≠ some p

section

variable {p : Fin NPROC} {o : Option Creation} {s : State H}

lemma Resumed.onCpu (h : Resumed p s) (ho : Ours p o s) : OnCpu p o s :=
  ⟨ho, h.running, h.hart, h.drowsy⟩

lemma Resumed.procFree (h : Resumed p s) : ProcFree s p :=
  ⟨h.drowsy, fun _ => h.hart, fun hst => absurd h.running hst⟩

lemma OnCpu.procFree (h : OnCpu p o s) : ProcFree s p :=
  ⟨h.drowsy, fun _ => h.hart, fun hst => absurd h.running hst⟩

lemma OnCpu.not_pending (h : OnCpu p o s) (chan : Chan) : ¬ (s.slot p).Pending chan := by
  rintro (⟨hst, -⟩ | hdr)
  · simp [h.running] at hst
  · simp [h.drowsy] at hdr

/-- What the process does to its own slot while it lives. -/
lemma Ours.setSelf (h : Ours p o s) {x : Slot H} (halive : x.Alive) (hfresh : x.fresh = false)
    (hcreator : x.creator = (s.slot p).creator) : Ours p o (s.setSlot p x) := by
  refine ⟨by simpa, by simpa, fun i hi => ?_, fun c hc => ?_⟩
  · apply h.creates
    by_cases hip : i = p
    · subst hip
      simpa [hcreator] using hi
    · simpa [hip] using hi
  · have hchild := h.child c hc
    simpa [hchild.1] using hchild

/-- Leaving the hart does not change what the process knows. -/
lemma Ours.leave (h : Ours p o s) : Ours p o (s.setSlot p { s.slot p with hart := none }) :=
  h.setSelf h.alive h.fresh rfl

lemma Unstarted.leave (h : Unstarted p s) :
    Unstarted p (s.setSlot p { s.slot p with hart := none }) := by
  refine ⟨by simpa [Slot.Dormant, Slot.Alive] using h.dormant, fun i => ?_⟩
  by_cases hi : i = p
  · subst hi
    simpa using h.creates i
  · simpa [hi] using h.creates i

end

/-! ### The discipline -/

variable [DecidableEq H]

/-- The discipline that the kernel follows. Locks of processes are taken in the order of the table,
and only the scheduler takes one while it holds another. -/
def disc (H : Type) [DecidableEq H] : Discipline (threads H) where
  inv := Inv
  lockInv
    | .proc i, s => ProcFree s i
    | .wait, s => WaitFree s
    | .obj k, s => CondFree s k
    | .pid, _ => True
    | .ticks, _ => True
  guar := Act
  resumes
    | .proc p, l, s => l = .proc p ∧ Resumed p s
    | .sched c, l, s => ∃ b, l = .proc b ∧ Returned c b s
  order t Hs l := ∀ i j, l = .proc j → .proc i ∈ Hs → (∃ c, t = .sched c) ∧ i < j
  panics m := m = .initExiting
  pre
    | .scheduler c, t, Hs, s => t = .sched c ∧ Hs = ∅ ∧ s.cpu c = none
    | .entry p, t, Hs, s => t = .proc p ∧ Hs = {.proc p} ∧ Resumed p s ∧ Unstarted p s
    | .user p, t, Hs, s => t = .proc p ∧ Hs = ∅ ∧ OnCpu p none s
    | .waitLoop p, t, Hs, s => t = .proc p ∧ Hs = {.wait} ∧ OnCpu p none s ∧ WaitFree s
    | .condLoop p k, t, Hs, s => t = .proc p ∧ Hs = {.obj k} ∧ OnCpu p none s ∧ CondFree s k
  inv_of_guar h hs := hs.act h
  lockInv_of_guar {_ _ _ _ l} h hs hl hfree := by
    cases l with
    | proc i => exact hfree.act h hl
    | wait => exact hfree.act hs h hl
    | obj k => exact hfree.act h hl
    | pid | ticks => trivial

/-! ### What the locks protect -/

section

variable {t : Thread H} {Hs : Set Lock} {s s' : State H}

lemma frozen_of_rely {i : Fin NPROC} (hr : (disc H).Rely t Hs s s') (hl : .proc i ∈ Hs) :
    Frozen i s s' := by
  refine Discipline.Stable.rely (A := Frozen i s) ?_ (by constructor <;> simp) hr
  intro a b _ ha t' _ Hs' hdisj hact
  have hb := Act.frozen hact (Set.disjoint_left.mp hdisj hl)
  exact ⟨hb.state.trans ha.state, hb.chan.trans ha.chan, hb.xstate.trans ha.xstate,
    hb.hart.trans ha.hart, hb.fresh.trans ha.fresh, hb.drowsy.trans ha.drowsy,
    hb.creator.trans ha.creator, fun c => (hb.cpu c).trans (ha.cpu c)⟩

lemma keepsFamily_of_rely (hr : (disc H).Rely t Hs s s') (hw : .wait ∈ Hs) (j : Fin NPROC) :
    SlotAct.KeepsFamily (s.slot j) (s'.slot j) := by
  refine Discipline.Stable.rely
    (A := fun a : State H => SlotAct.KeepsFamily (s.slot j) (a.slot j)) ?_
    ⟨rfl, Iff.rfl, id⟩ hr
  intro a b hinv ha t' _ Hs' hdisj hact
  have hb := Act.keepsFamily hact hinv (Set.disjoint_left.mp hdisj hw) j
  exact ⟨hb.parent.trans ha.parent, hb.zombie.trans ha.zombie, fun h => hb.alive (ha.alive h)⟩

lemma family_of_rely {E : Set (Fin NPROC)} (hr : (disc H).Rely t Hs s s') (hw : .wait ∈ Hs)
    (h : Family E s) : Family E s' := by
  refine Discipline.Stable.rely (A := Family E) ?_ h hr
  intro a b hinv ha t' _ Hs' hdisj hact
  exact ha.act hinv hact (Set.disjoint_left.mp hdisj hw)

/-- Nobody goes to sleep on a channel while its lock is held. -/
lemma not_pending_of_rely {l : Lock} {chan : Chan} (hr : (disc H).Rely t Hs s s') (hl : l ∈ Hs)
    (hchan : chanLock chan = some l) {j : Fin NPROC} (hj : ¬ (s.slot j).Pending chan) :
    ¬ (s'.slot j).Pending chan := by
  refine Discipline.Stable.rely (A := fun a : State H => ¬ (a.slot j).Pending chan) ?_ hj hr
  intro a b _ ha t' _ Hs' hdisj hact hpend
  obtain hpend | hlocks := Act.pending hact hpend
  · exact ha hpend
  · exact Set.disjoint_left.mp hdisj hl (hlocks l hchan)

lemma cond_of_rely {k : ℕ} (hr : (disc H).Rely t Hs s s') (hl : .obj k ∈ Hs) :
    s'.cond k = s.cond k := by
  refine Discipline.Stable.rely (A := fun a : State H => a.cond k = s.cond k) ?_ rfl hr
  intro a b _ ha t' _ Hs' hdisj hact
  exact (Act.cond_eq hact (Set.disjoint_left.mp hdisj hl)).trans ha

/-! ### What only the thread itself changes -/

lemma initproc_of_rely (hr : (disc H).Rely t Hs s s') : s'.initproc = s.initproc := by
  refine Discipline.Stable.rely (A := fun a : State H => a.initproc = s.initproc) ?_ rfl hr
  intro a b _ ha t' _ Hs' _ hact
  exact (Act.initproc_eq hact).trans ha

lemma cpu_of_rely {c : H} (hr : (disc H).Rely (.sched c) Hs s s') : s'.cpu c = s.cpu c := by
  refine Discipline.Stable.rely (A := fun a : State H => a.cpu c = s.cpu c) ?_ rfl hr
  intro a b _ ha t' ht' Hs' _ hact
  exact (Act.cpu_eq hact ht').trans ha

variable {p : Fin NPROC} {o : Option Creation}

lemma Resumed.rely (h : Resumed p s) (hr : (disc H).Rely t Hs s s') (hl : .proc p ∈ Hs) :
    Resumed p s' := by
  have hf := frozen_of_rely hr hl
  exact ⟨hf.state.trans h.running, hf.hart.symm ▸ h.hart, hf.drowsy.trans h.drowsy⟩

lemma Ours.rely (h : Ours p o s) (hr : (disc H).Rely (.proc p) Hs s s') : Ours p o s' := by
  refine Discipline.Stable.rely ?_ h hr
  intro a b hinv ha t' ht' Hs' _ hact
  have hself : SlotAct.KeepsSelf (a.slot p) (b.slot p) := by
    obtain heq | ⟨e, hslot⟩ := Act.slot_cases hact p
    · rw [heq]
      exact ⟨ha.alive, rfl, rfl, id, fun _ => rfl⟩
    · exact hslot.keepsSelf ht' ha.alive (hinv.wellFormed p)
  refine ⟨hself.alive, hself.fresh.trans ha.fresh, ?_, ?_⟩
  · intro i hi
    apply ha.creates
    obtain heq | ⟨e, hslot⟩ := Act.slot_cases hact i
    · rwa [heq] at hi
    · exact (hslot.creator_eq_some_iff ht' (hinv.wellFormed i)).mp hi
  · intro c hc
    have hchild := ha.child c hc
    obtain heq | ⟨e, hslot⟩ := Act.slot_cases hact c.slot
    · rwa [heq]
    · have hk := hslot.keepsCreated ht' hchild.2.1 (hinv.wellFormed c.slot)
      rwa [hk.creator, hk.fresh, hk.parent]

lemma OnCpu.rely (h : OnCpu p o s) (hr : (disc H).Rely (.proc p) Hs s s') : OnCpu p o s' := by
  refine Discipline.Stable.rely (A := OnCpu p o) ?_ h hr
  intro a b hinv ha t' ht' Hs' hdisj hact
  have hours : Ours p o b :=
    ha.toOurs.rely (ReflTransGen.single ⟨hinv, t', ht', Hs', hdisj, hact⟩)
  obtain heq | ⟨e, hslot⟩ := Act.slot_cases hact p
  · exact ⟨hours, heq ▸ ha.running, heq ▸ ha.hart, heq ▸ ha.drowsy⟩
  · have hself := hslot.keepsSelf ht' ha.alive (hinv.wellFormed p)
    exact ⟨hours, hself.running ha.running, (hself.hart ha.hart).symm ▸ ha.hart,
      hself.drowsy.trans ha.drowsy⟩

lemma Unstarted.rely (h : Unstarted p s) (hr : (disc H).Rely (.proc p) Hs s s') :
    Unstarted p s' := by
  refine Discipline.Stable.rely (A := Unstarted p) ?_ h hr
  intro a b hinv ha t' ht' Hs' _ hact
  constructor
  · obtain heq | ⟨e, hslot⟩ := Act.slot_cases hact p
    · exact heq ▸ ha.dormant
    · exact hslot.dormant ht' (hinv.wellFormed p) ha.dormant
  · intro i hi
    apply ha.creates i
    obtain heq | ⟨e, hslot⟩ := Act.slot_cases hact i
    · rwa [heq] at hi
    · exact (hslot.creator_eq_some_iff ht' (hinv.wellFormed i)).mp hi

end

/-! ### Suspended threads -/

lemma awaits_setSlot (s : State H) {i : Fin NPROC} {x : Slot H} (hx : x.hart = (s.slot i).hart) :
    awaits (s.setSlot i x) = awaits s := by
  have hhart : ∀ j, ((s.setSlot i x).slot j).hart = (s.slot j).hart := by
    intro j
    by_cases hj : j = i
    · subst hj
      simpa using hx
    · simp [hj]
  funext t
  cases t <;> simp only [awaits, setSlot_cpu, hhart]

end Xv6.Sched
