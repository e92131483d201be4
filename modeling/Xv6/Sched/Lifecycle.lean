import Xv6.Sched.Programs

/-!
# fork, exit and wait keep to the discipline
-/

namespace Xv6.Sched

open Core Relation

variable {H : Type}

/-! ### Updates of other slots by a process -/

variable {q : Fin NPROC}

section

variable {s : State H} {p i : Fin NPROC} {o : Option Creation} {x : Slot H}

/-- The process creates another one in slot `i`. -/
lemma OnCpu.setChild {b : Bool} {par : Option (Fin NPROC)} (h : OnCpu p o s) (hi : i ≠ p)
    (ho : ∀ c ∈ o, c.slot = i) (hx : x.creator = some p) (hf : x.fresh = b)
    (hpar : x.parent = par) : OnCpu p (some ⟨i, b, par⟩) (s.setSlot i x) := by
  have hp : (s.setSlot i x).slot p = s.slot p := by simp [hi.symm]
  refine ⟨⟨hp ▸ h.alive, hp ▸ h.fresh, fun j hj => ⟨_, rfl, ?_⟩, ?_⟩, hp ▸ h.running, hp ▸ h.hart,
    hp ▸ h.drowsy⟩
  · by_contra hji
    obtain ⟨c, hc, rfl⟩ := h.creates j (by simpa [Ne.symm hji] using hj)
    exact hji (ho c hc).symm
  · rintro c ⟨⟩
    exact ⟨hi, by simpa, by simpa, by simpa⟩

/-- The process is done with creating the other one. -/
lemma OnCpu.endChild {c : Creation} (h : OnCpu p (some c) s) (hx : x.creator ≠ some p) :
    OnCpu p none (s.setSlot c.slot x) := by
  have hi := (h.child c rfl).1
  have hp : (s.setSlot c.slot x).slot p = s.slot p := by simp [hi.symm]
  refine ⟨⟨hp ▸ h.alive, hp ▸ h.fresh, fun j hj => ?_, fun _ hc => nomatch hc⟩, hp ▸ h.running,
    hp ▸ h.hart, hp ▸ h.drowsy⟩
  by_cases hji : j = c.slot
  · subst hji
    simp [hx] at hj
  · obtain ⟨c', ⟨⟩, rfl⟩ := h.creates j (by simpa [hji] using hj)
    exact absurd rfl hji

/-- The process updates a slot that it has nothing to do with. -/
lemma OnCpu.setOther (h : OnCpu p none s) (hi : i ≠ p) (hx : x.creator = (s.slot i).creator) :
    OnCpu p none (s.setSlot i x) := by
  have hp : (s.setSlot i x).slot p = s.slot p := by simp [hi.symm]
  refine ⟨⟨hp ▸ h.alive, hp ▸ h.fresh, fun j hj => h.creates j ?_, fun _ hc => nomatch hc⟩,
    hp ▸ h.running, hp ▸ h.hart, hp ▸ h.drowsy⟩
  by_cases hji : j = i
  · subst hji
    simpa [hx] using hj
  · simpa [hji] using hj

lemma OnCpu.creator_ne (h : OnCpu p none s) (i : Fin NPROC) : (s.slot i).creator ≠ some p := by
  intro hi
  obtain ⟨c, hc, -⟩ := h.creates i hi
  exact nomatch hc

lemma OnCpu.setHist (h : OnCpu p o s) (hist : List Record) : OnCpu p o { s with hist := hist } :=
  ⟨⟨h.alive, h.fresh, h.creates, h.child⟩, h.running, h.hart, h.drowsy⟩

lemma Family.setHist {E : Set (Fin NPROC)} (h : Family E s) (hist : List Record) :
    Family E { s with hist := hist } :=
  ⟨h.parent_alive, h.not_pending⟩

lemma ProcFree.setHist (h : ProcFree s i) (hist : List Record) :
    ProcFree { s with hist := hist } i :=
  ⟨h.drowsy, h.running, h.offCpu⟩

/-! ### Setting the parent -/

def State.setParent (s : State H) (i : Fin NPROC) (q : Option (Fin NPROC)) : State H :=
  s.setSlot i { s.slot i with parent := q }

section

variable (s i) (q : Option (Fin NPROC)) (j : Fin NPROC)

@[simp] lemma setParent_parent :
    ((s.setParent i q).slot j).parent = if j = i then q else (s.slot j).parent := by
  by_cases hj : j = i <;> simp [State.setParent, hj]

@[simp] lemma setParent_state : ((s.setParent i q).slot j).state = (s.slot j).state := by
  by_cases hj : j = i <;> simp [State.setParent, hj]

@[simp] lemma setParent_initproc : (s.setParent i q).initproc = s.initproc := rfl

lemma alive_setParent : ((s.setParent i q).slot j).Alive ↔ (s.slot j).Alive := by
  simp [Slot.Alive]

lemma born_setParent : ((s.setParent i q).slot j).Born ↔ (s.slot j).Born := by
  simp [Slot.Born, Slot.Alive]

lemma pending_setParent (chan : Chan) :
    ((s.setParent i q).slot j).Pending chan ↔ (s.slot j).Pending chan := by
  by_cases hj : j = i <;> simp [State.setParent, Slot.Pending, hj]

end

lemma OnCpu.setParent (h : OnCpu p none s) (q : Option (Fin NPROC)) :
    OnCpu p none (s.setParent i q) := by
  by_cases hi : i = p
  · subst hi
    refine ⟨h.setSelf h.alive h.fresh rfl, by simpa using h.running, ?_, ?_⟩
    · simpa [State.setParent] using h.hart
    · simpa [State.setParent] using h.drowsy
  · exact h.setOther hi rfl

/-- The parent of a process that has not been started may be set. -/
lemma Family.adopt {E : Set (Fin NPROC)} (h : Family E s) (hst : (s.slot i).state = .used)
    (q : Option (Fin NPROC)) : Family E (s.setParent i q) := by
  have hi : ∀ j, (s.slot j).Born → j ≠ i := by
    rintro j hj rfl
    simp [Slot.Born, Slot.Alive, hst] at hj
  refine ⟨fun j hj hinit => ?_, fun j r hz hr hE => ?_⟩
  · rw [born_setParent] at hj
    obtain ⟨r, hr, hra⟩ := h.parent_alive j hj hinit
    exact ⟨r, by simpa [hi j hj] using hr, (alive_setParent ..).mpr hra⟩
  · rw [setParent_state] at hz
    rw [setParent_parent, if_neg (hi j (.inr hz))] at hr
    rw [pending_setParent]
    exact h.not_pending j r hz hr hE

/-- When a child is passed to init, init may be asleep in `wait`. -/
lemma Family.reparent (h : Family ∅ s) (hinit : (s.slot s.initproc).Alive) (j : Fin NPROC) :
    Family {s.initproc} (s.setParent j (some s.initproc)) := by
  refine ⟨fun k hk hk' => ?_, fun k r hz hr hE => ?_⟩
  · rw [born_setParent] at hk
    obtain ⟨r, hr, hra⟩ := h.parent_alive k hk hk'
    by_cases hkj : k = j
    · exact ⟨s.initproc, by simp [hkj], (alive_setParent ..).mpr hinit⟩
    · exact ⟨r, by simpa [hkj] using hr, (alive_setParent ..).mpr hra⟩
  · rw [setParent_state] at hz
    rw [setParent_parent] at hr
    rw [pending_setParent]
    split_ifs at hr with hkj
    · exact absurd (Option.some.inj hr).symm hE
    · exact h.not_pending k r hz hr (Set.notMem_empty _)

lemma Family.woken (h : Family {q} s) (hq : ¬ (s.slot q).Pending (.proc q)) : Family ∅ s := by
  refine ⟨h.parent_alive, fun j r hz hr _ => ?_⟩
  by_cases hrq : r = q
  · rwa [hrq]
  · exact h.not_pending j r hz hr hrq

/-- A process without children becomes a zombie. Its parent `q` has been woken up. -/
lemma Family.exit (h : Family ∅ s) (hrun : (s.slot p).Alive)
    (hchildren : ∀ j, (s.slot j).parent ≠ some p) (hq : (s.slot p).parent = some q)
    (hpend : ¬ (s.slot q).Pending (.proc q)) (hpar : x.parent = (s.slot p).parent) :
    Family ∅ (s.setSlot p x) := by
  refine ⟨fun j hj hinit => ?_, fun j r hz hr _ => ?_⟩
  · have hborn : (s.slot j).Born := by
      by_cases hjp : j = p
      · exact .inl (hjp ▸ hrun)
      · simpa [hjp] using hj
    obtain ⟨r, hr, hra⟩ := h.parent_alive j hborn hinit
    have hrp : r ≠ p := fun hrp => hchildren j (hrp ▸ hr)
    refine ⟨r, ?_, by simpa [hrp] using hra⟩
    by_cases hjp : j = p
    · subst hjp
      simpa [hpar] using hr
    · simpa [hjp] using hr
  · by_cases hjp : j = p
    · subst hjp
      have hrq : r = q := by simpa [hpar, hq, eq_comm] using hr
      have hqp : q ≠ j := fun hqp => hchildren j (hqp ▸ hq)
      simpa [hrq, hqp] using hpend
    · have hr' : (s.slot j).parent = some r := by simpa [hjp] using hr
      have hrp : r ≠ p := fun hrp => hchildren j (hrp ▸ hr')
      simpa [hrp] using h.not_pending j r (by simpa [hjp] using hz) hr' (Set.notMem_empty _)

/-- A zombie is nobody's parent, so that it can be freed. -/
lemma Family.reap (h : Family ∅ s) (hinit : (s.slot s.initproc).Alive)
    (hz : (s.slot i).state = .zombie) (hx : x.state = .unused) : Family ∅ (s.setSlot i x) := by
  have halive : ∀ j, (s.slot j).Alive → j ≠ i := by
    rintro j hj rfl
    simp [Slot.Alive, hz] at hj
  refine ⟨fun j hj hj' => ?_, fun j r hjz hr hE => ?_⟩
  · have hji : j ≠ i := by
      rintro rfl
      simp [Slot.Born, Slot.Alive, hx] at hj
    obtain ⟨r, hr, hra⟩ := h.parent_alive j (by simpa [hji] using hj) hj'
    exact ⟨r, by simpa [hji] using hr, by simpa [halive r hra] using hra⟩
  · have hji : j ≠ i := by
      rintro rfl
      simp [hx] at hjz
    have hjz' : (s.slot j).state = .zombie := by simpa [hji] using hjz
    have hr' : (s.slot j).parent = some r := by simpa [hji] using hr
    have hj' : j ≠ s.initproc := by
      rintro rfl
      simp [Slot.Alive, hjz'] at hinit
    obtain ⟨r', hr'', hra⟩ := h.parent_alive j (.inr hjz') hj'
    have hri : r ≠ i := by
      rw [hr'] at hr''
      exact Option.some.inj hr'' ▸ halive r' hra
    simpa [hri] using h.not_pending j r hjz' hr' hE

/-- A process without zombies among its children may go to sleep. -/
lemma Family.drowse (h : Family ∅ s)
    (hkids : ∀ j, (s.slot j).parent = some p → (s.slot j).state ≠ .zombie) (chan : Chan) :
    Family ∅ (s.setSlot p { s.slot p with drowsy := some chan }) := by
  have hslot : ∀ j, ((s.setSlot p { s.slot p with drowsy := some chan }).slot j).toProc =
      (s.slot j).toProc := by
    intro j
    by_cases hjp : j = p <;> simp [hjp]
  refine ⟨fun j hj hj' => ?_, fun j r hz hr hE => ?_⟩
  · simp only [Slot.Born, Slot.Alive, hslot] at hj ⊢
    exact h.parent_alive j hj hj'
  · rw [hslot] at hz hr
    have hrp : r ≠ p := fun hrp => hkids j (hrp ▸ hr) hz
    simpa [hrp] using h.not_pending j r hz hr hE

end

variable [DecidableEq H] {t : Thread H} {Hs : Set Lock} {s : State H} {p i : Fin NPROC}

/-! ### fork -/

lemma wp_allocpid (hHs : .pid ∉ Hs) :
    (disc H).wp t allocpid (fun _ Hs' s' => Hs' = Hs ∧ (disc H).Rely t Hs s s') Hs s := by
  have hsub : Hs ⊆ insert .pid Hs := Set.subset_insert _ _
  refine Discipline.wp_lock (fun _ _ h => nomatch h) hHs fun s₁ hr₁ _ _ => ?_
  refine Discipline.wp_update fun s₂ hr₂ hi₂ => ⟨.setNextpid _, rfl, fun _ => ?_⟩
  refine Discipline.wp_unlock (Set.mem_insert _ _) (Set.insert_sdiff_self_of_notMem hHs)
    fun s₃ hr₃ _ => ⟨trivial, Discipline.wp_ret fun s₄ hr₄ _ => ⟨rfl, ?_⟩⟩
  have hpid : (disc H).Rely t Hs s₂ { s₂ with nextpid := s₂.nextpid + 1 } :=
    rely_act hi₂ (Set.disjoint_empty Hs) fun _ => .setNextpid _
  exact hr₁.trans <| (hr₂.mono hsub).trans <| hpid.trans <| (hr₃.mono hsub).trans hr₄

lemma wp_abandon {b : Bool} (h : OnCpu p (some ⟨i, b, none⟩) s) (hfree : ProcFree s i) :
    (disc H).wp (.proc p) (abandon i) (fun _ Hs' s' => Hs' = ∅ ∧ OnCpu p none s') {.proc i} s := by
  refine wp_setSlot fun s₁ hr₁ hi₁ => ?_
  have h₁ := h.rely hr₁
  have hfree₁ : ProcFree s₁ i := hr₁.lockInv rfl hfree
  obtain ⟨-, hcreator, -, hparent⟩ := h₁.child _ rfl
  have hused := (hi₁.wellFormed i).used_iff.mpr (by simp [hcreator])
  refine ⟨.abandon p _ rfl rfl hcreator hparent rfl rfl, rfl, fun _ => ?_⟩
  have h₂ := h₁.endChild (x := { s₁.slot i with toProc := (s₁.slot i).freeproc, creator := none })
    (by simp)
  refine wp_unlockSlot (g := pure) h₂ (hfree₁.setSlot rfl rfl ?_) fun s₃ _ h₃ => ?_
  · simp [Proc.freeproc, hused]
  · exact Discipline.wp_ret fun s₄ hr₄ _ => ⟨rfl, h₃.rely hr₄⟩

/-- What the process knows about the slot that it has allocated. -/
def Allocated (p : Fin NPROC) (s : State H) (Hs : Set Lock) : Option (Fin NPROC) → Prop
  | none => Hs = ∅ ∧ OnCpu p none s
  | some i => Hs = {.proc i} ∧ OnCpu p (some ⟨i, true, none⟩) s ∧ ProcFree s i

lemma wp_setupProc (hs : Inv s) (h : OnCpu p none s) (hfree : ProcFree s i)
    (hst : (s.slot i).state = .unused) :
    (disc H).wp (.proc p) (setupProc p i)
      (fun ok Hs' s' => Allocated p s' Hs' (if ok then some i else none)) {.proc i} s := by
  refine Discipline.wp_bind hs (Discipline.wp_mono ?_ (wp_allocpid (by simp)))
  rintro pid Hs' s₁ ⟨rfl, hr₁⟩ _
  refine wp_setSlot fun s₂ hr₂ hi₂ => ?_
  have hr := hr₁.trans hr₂
  have h₂ := h.rely hr
  have hfree₂ : ProcFree s₂ i := hr.lockInv rfl hfree
  have hst₂ : (s₂.slot i).state = .unused := (frozen_of_rely hr rfl).state.trans hst
  have hip : i ≠ p := by
    rintro rfl
    simp [h₂.running] at hst₂
  have hpar : (s₂.slot i).parent = none := (hi₂.wellFormed i).parent_of_unused hst₂
  refine ⟨.alloc p _ rfl rfl hst₂ rfl rfl, rfl, fun hi₃ => ?_⟩
  have h₃ : OnCpu p (some ⟨i, (s₂.slot i).fresh, none⟩) (s₂.setSlot i { s₂.slot i with
      toProc := (s₂.slot i).allocproc pid s₂.ticks, creator := some p }) :=
    h₂.setChild hip (fun _ hc => nomatch hc) rfl rfl hpar
  have hfree₃ : ProcFree (s₂.setSlot i { s₂.slot i with
      toProc := (s₂.slot i).allocproc pid s₂.ticks, creator := some p }) i :=
    hfree₂.setSlot rfl rfl (by simp [Proc.allocproc, hst₂])
  refine Discipline.wp_choice fun ok => ?_
  split_ifs
  · refine wp_setSlot fun s₄ hr₄ _ => ?_
    have h₄ := h₃.rely hr₄
    obtain ⟨-, hcreator, -, hpar₄⟩ := h₄.child _ rfl
    refine ⟨.setContext p rfl rfl hcreator, rfl, fun _ => Discipline.wp_ret fun s₅ hr₅ _ => ?_⟩
    have h₅ : OnCpu p (some ⟨i, true, none⟩) (s₄.setSlot i { s₄.slot i with fresh := true }) :=
      h₄.setChild hip (by rintro c ⟨⟩; rfl) hcreator rfl hpar₄
    have hfree₄ : ProcFree s₄ i := hr₄.lockInv rfl hfree₃
    have hfree₅ : ProcFree (s₄.setSlot i { s₄.slot i with fresh := true }) i :=
      hfree₄.setSlot rfl rfl Iff.rfl
    exact ⟨rfl, h₅.rely hr₅, hr₅.lockInv rfl hfree₅⟩
  · refine Discipline.wp_bind hi₃ (Discipline.wp_mono ?_ (wp_abandon h₃ hfree₃))
    rintro - Hs' s₄ ⟨rfl, h₄⟩ _
    exact Discipline.wp_ret fun s₅ hr₅ _ => ⟨rfl, h₄.rely hr₅⟩

lemma wp_allocproc (is : List (Fin NPROC)) (hs : Inv s) (h : OnCpu p none s) :
    (disc H).wp (.proc p) (allocproc p is) (fun r Hs' s' => Allocated p s' Hs' r) ∅ s := by
  induction is generalizing s with
  | nil => exact Discipline.wp_ret fun s' hr _ => ⟨rfl, h.rely hr⟩
  | cons i is ih =>
    refine wp_lockSlot h fun s₁ _ h₁ hfree₁ => ?_
    refine wp_readSlot h₁ hfree₁ fun s₂ hi₂ h₂ hfree₂ => ?_
    split_ifs with hfound
    · refine Discipline.wp_bind hi₂ (Discipline.wp_mono ?_
        (wp_setupProc hi₂ h₂ hfree₂ (by simpa using hfound)))
      rintro ok Hs' s₃ halloc _
      cases ok with
      | true =>
        obtain ⟨rfl, h₃, hfree₃⟩ := halloc
        exact Discipline.wp_ret fun s₄ hr₄ _ => ⟨rfl, h₃.rely hr₄, hr₄.lockInv rfl hfree₃⟩
      | false =>
        obtain ⟨rfl, h₃⟩ := halloc
        exact Discipline.wp_ret fun s₄ hr₄ _ => ⟨rfl, h₃.rely hr₄⟩
    · refine wp_unlockSlot h₂ hfree₂ fun s₃ hi₃ h₃ => ?_
      refine Discipline.wp_bind hi₃ (Discipline.wp_mono ?_ (wp_interrupts hi₃ h₃))
      rintro - Hs' s₄ ⟨rfl, h₄⟩ hi₄
      exact ih hi₄ h₄

lemma wp_startChild (hs : Inv s) (h : OnCpu p (some ⟨i, true, none⟩) s) :
    (disc H).wp (.proc p) (startChild p i) (fun _ Hs' s' => Hs' = ∅ ∧ OnCpu p none s') ∅ s := by
  refine Discipline.wp_bind hs (Discipline.wp_mono ?_ (wp_interrupts hs h))
  rintro - Hs' s₁ ⟨rfl, h₁⟩ _
  refine Discipline.wp_lock (noProc_empty.order _) (Set.notMem_empty _) fun s₂ hr₂ _ hfam₂ => ?_
  rw [insert_empty_eq]
  refine wp_setSlot fun s₃ hr₃ hi₃ => ?_
  have h₃ := (h₁.rely hr₂).rely hr₃
  obtain ⟨hip, hcreator, hfresh, -⟩ := h₃.child _ rfl
  have hused := (hi₃.wellFormed i).used_iff.mpr (by simp [hcreator])
  refine ⟨.adopt p rfl rfl hcreator, rfl, fun _ => ?_⟩
  have h₄ : OnCpu p (some ⟨i, true, some p⟩) (s₃.setParent i (some p)) :=
    h₃.setChild hip (by rintro c ⟨⟩; rfl) hcreator hfresh rfl
  have hfam₄ := (family_of_rely hr₃ rfl hfam₂).adopt hused (some p)
  refine Discipline.wp_unlock rfl Set.sdiff_self fun s₅ hr₅ hi₅ =>
    ⟨family_of_rely hr₅ rfl hfam₄, ?_⟩
  refine Discipline.wp_bind hi₅ (Discipline.wp_mono ?_ (wp_interrupts hi₅ (h₄.rely hr₅)))
  rintro - Hs' s₆ ⟨rfl, h₆⟩ _
  refine wp_lockSlot h₆ fun s₇ _ h₇ hfree₇ => ?_
  refine wp_setSlot fun s₈ hr₈ hi₈ => ?_
  have h₈ := h₇.rely hr₈
  have hfree₈ : ProcFree s₈ i := hr₈.lockInv rfl hfree₇
  obtain ⟨-, hcreator, hfresh, hpar⟩ := h₈.child _ rfl
  have hused := (hi₈.wellFormed i).used_iff.mpr (by simp [hcreator])
  refine ⟨.ready p rfl rfl hcreator hpar hfresh h₈.running, rfl, fun _ => ?_⟩
  have h₉ := h₈.endChild (x := { s₈.slot i with state := .runnable, creator := none }) (by simp)
  refine wp_unlockSlot (g := pure) h₉ (hfree₈.setSlot rfl rfl (by simp [hused]))
    fun s₁₀ _ h₁₀ => ?_
  exact Discipline.wp_ret fun s₁₁ hr₁₁ _ => ⟨rfl, h₁₀.rely hr₁₁⟩

lemma wp_fork (hs : Inv s) (h : OnCpu p none s) :
    (disc H).wp (.proc p) (fork p) (fun _ Hs' s' => Hs' = ∅ ∧ OnCpu p none s') ∅ s := by
  refine Discipline.wp_bind hs (Discipline.wp_mono ?_ (wp_allocproc _ hs h))
  rintro (_ | i) Hs' s₁ halloc hi₁
  · obtain ⟨rfl, h₁⟩ := halloc
    exact Discipline.wp_ret fun s₂ hr₂ _ => ⟨rfl, h₁.rely hr₂⟩
  · obtain ⟨rfl, h₁, hfree₁⟩ := halloc
    refine Discipline.wp_choice fun copied => ?_
    split_ifs
    · refine wp_setSlot fun s₂ hr₂ hi₂ => ?_
      have hcalm : Calm (s₂.slot i).toProc { (s₂.slot i).toProc with sz := (s₂.slot p).sz } :=
        ⟨.inl rfl, rfl, rfl, rfl⟩
      refine ⟨.calm _ rfl hcalm, rfl, fun _ => ?_⟩
      have h₃ := (h₁.rely hr₂).rely (rely_calm hi₂ (Set.notMem_empty _) hcalm)
      have hfree₂ : ProcFree s₂ i := hr₂.lockInv rfl hfree₁
      exact wp_unlockSlot h₃ (hfree₂.calm hcalm) fun s₄ hi₄ h₄ => wp_startChild hi₄ h₄
    · exact wp_abandon h₁ hfree₁

/-! ### exit -/

/-- What `exit` knows in `reparent`, when the slots in `rest` have yet to be looked at. -/
structure Reparenting (p : Fin NPROC) (rest : List (Fin NPROC)) (s : State H) : Prop where
  onCpu : OnCpu p none s
  family : Family ∅ s
  initproc : s.initproc ≠ p
  parent : ∀ j ∉ rest, (s.slot j).parent ≠ some p

lemma Reparenting.rely {s' : State H} {rest : List (Fin NPROC)} (h : Reparenting p rest s)
    (hr : (disc H).Rely (.proc p) Hs s s') (hw : .wait ∈ Hs) : Reparenting p rest s' where
  onCpu := h.onCpu.rely hr
  family := family_of_rely hr hw h.family
  initproc := by
    rw [initproc_of_rely hr]
    exact h.initproc
  parent j hj := by
    rw [(keepsFamily_of_rely hr hw j).parent]
    exact h.parent j hj

lemma wp_reparent (hs : Inv s) (h : Reparenting p (List.finRange NPROC) s) :
    (disc H).wp (.proc p) (reparent p)
      (fun _ Hs' s' => Hs' = {.wait} ∧ Reparenting p [] s') {.wait} s := by
  have hHs : NoProc {.wait} := noProc_singleton fun _ => Lock.noConfusion
  refine Discipline.wp_forM (D := disc H) (A := fun rest s => Reparenting p rest s)
    (fun _ _ h hr => h.rely hr (Set.mem_singleton _)) ?_ hs h
  intro j rest s₁ _ h₁
  refine wp_read fun s₂ hr₂ _ => ?_
  have h₂ := h₁.rely hr₂ rfl
  split_ifs with hmine
  · refine wp_setSlot fun s₃ hr₃ hi₃ => ?_
    have h₃ := h₂.rely hr₃ rfl
    have hpar : (s₃.slot j).parent = some p :=
      (keepsFamily_of_rely hr₃ rfl j).parent.trans (by simpa using hmine)
    have hcreator : (s₃.slot j).creator = none := by
      by_contra hne
      obtain ⟨q, hq⟩ := Option.ne_none_iff_exists'.mp hne
      obtain hnone | hsome := (hi₃.wellFormed j).parent_of_creator q hq
      · simp [hpar] at hnone
      · rw [hpar] at hsome
        exact h₃.onCpu.creator_ne j (hq.trans hsome.symm)
    refine ⟨.reparent p rfl rfl hpar hcreator, rfl, fun hi₄ => ?_⟩
    have hfam : Family {s₃.initproc} (s₃.setParent j (some s₃.initproc)) :=
      h₃.family.reparent hi₃.init_alive j
    have hcpu : OnCpu p none (s₃.setParent j (some s₃.initproc)) := h₃.onCpu.setParent _
    refine wp_read fun s₅ (hr₅ : (disc H).Rely _ _ (s₃.setParent j (some s₃.initproc)) s₅) hi₅ => ?_
    have hinit₅ : s₅.initproc = s₃.initproc := by rw [initproc_of_rely hr₅, setParent_initproc]
    refine Discipline.wp_mono ?_ (wp_wakeup hi₅ hHs (some p) (.proc s₅.initproc))
    rintro - Hs' s₆ ⟨rfl, hr₆, hpend⟩
    have hr := hr₅.trans hr₆
    have hinit₆ : s₆.initproc = s₃.initproc := by rw [initproc_of_rely hr, setParent_initproc]
    refine ⟨rfl, hcpu.rely hr, ?_, hinit₆ ▸ h₃.initproc, fun k hk => ?_⟩
    · refine (family_of_rely hr rfl hfam).woken ?_
      rw [← hinit₅]
      exact hpend .wait rfl rfl _ (by simpa [hinit₅] using h₃.initproc)
    · rw [(keepsFamily_of_rely hr rfl k).parent]
      by_cases hkj : k = j
      · simpa [hkj] using h₃.initproc
      · simpa [hkj] using h₃.parent k (by simp [hkj, hk])
  · refine Discipline.wp_ret fun s₃ hr₃ _ => ⟨rfl, ?_⟩
    have h₃ := h₂.rely hr₃ rfl
    refine { h₃ with parent := fun k hk => ?_ }
    by_cases hkj : k = j
    · rw [hkj, (keepsFamily_of_rely hr₃ rfl j).parent]
      simpa using hmine
    · exact h₃.parent k (by simp [hkj, hk])

lemma wp_becomeZombie (h : Reparenting p [] s) (hq : (s.slot p).parent = some q)
    (hpend : ¬ (s.slot q).Pending (.proc q)) (status : Int32) :
    (disc H).wp (.proc p) (becomeZombie p status) (fun e _ _ => e.elim) {.wait} s := by
  have hHs : NoProc {.wait} := noProc_singleton fun _ => Lock.noConfusion
  refine Discipline.wp_lock (hHs.order _) (hHs p) fun s₁ hr₁ _ _ => ?_
  refine Discipline.wp_update fun s₂ hr₂ _ => ?_
  have hr := hr₁.trans (hr₂.mono (Set.subset_insert _ _))
  have h₂ := h.rely hr rfl
  have hfam₃ := h₂.family.exit (x := (s₂.slot p).map (·.exit status s₂.ticks)) h₂.onCpu.alive
    (fun j => h₂.parent j List.not_mem_nil) ((keepsFamily_of_rely hr rfl p).parent.trans hq)
    (not_pending_of_rely hr rfl rfl hpend) rfl
  refine ⟨.slot p _ (.log (.exited p status)) (.exit status _ rfl (.inl rfl) (.inr rfl)
    h₂.onCpu.running h₂.initproc.symm rfl rfl rfl), awaits_setSlot s₂ rfl, fun _ => ?_⟩
  refine Discipline.wp_unlock (.inr rfl) (pair_sdiff_right Lock.noConfusion) fun s₄ hr₄ hi₄ =>
    ⟨family_of_rely hr₄ (.inr rfl) (hfam₃.setHist _), ?_⟩
  have hf₄ := frozen_of_rely hr₄ (.inl rfl)
  have hun₄ : Unstarted p s₄ := by
    refine Unstarted.rely ⟨.inr ?_, fun i => ?_⟩ hr₄
    · simp [Slot.Alive, Proc.exit]
    · by_cases hi : i = p
      · subst hi
        simpa using h₂.onCpu.creator_ne i
      · simpa [hi] using h₂.onCpu.creator_ne i
  refine Discipline.wp_bind hi₄ (Discipline.wp_mono ?_ (wp_sched (fun _ => Unstarted.leave)
    (fun _ _ _ => Unstarted.rely) hun₄ ?_ ?_ ?_))
  · rintro - Hs' s₅ ⟨rfl, hres, hun⟩ _ s₆ hr₆ _
    exact ⟨rfl, rfl, hres.rely hr₆ rfl, hun.rely hr₆⟩
  · rw [hf₄.state]
    simp [Proc.exit]
  · rw [hf₄.hart]
    simpa using h₂.onCpu.hart
  · rw [hf₄.drowsy]
    simpa using h₂.onCpu.drowsy

lemma wp_exit (h : OnCpu p none s) (status : Int32) :
    (disc H).wp (.proc p) (exit p status) (fun e _ _ => e.elim) ∅ s := by
  have hHs : NoProc {.wait} := noProc_singleton fun _ => Lock.noConfusion
  refine wp_read fun s₁ hr₁ _ => ?_
  split_ifs with hinit
  · exact rfl
  refine Discipline.wp_lock (noProc_empty.order _) (Set.notMem_empty _) fun s₂ hr₂ hi₂ hfam₂ => ?_
  rw [insert_empty_eq]
  have h₂ : Reparenting p (List.finRange NPROC) s₂ := by
    refine ⟨(h.rely hr₁).rely hr₂, hfam₂, ?_, fun j hj => absurd (List.mem_finRange j) hj⟩
    rw [initproc_of_rely hr₂]
    exact fun heq => hinit (by simp [heq])
  refine Discipline.wp_bind hi₂ (Discipline.wp_mono ?_ (wp_reparent hi₂ h₂))
  rintro - Hs' s₃ ⟨rfl, h₃⟩ _
  refine wp_read fun s₄ hr₄ hi₄ => ?_
  have h₄ := h₃.rely hr₄ rfl
  obtain ⟨q, hq, -⟩ := h₄.family.parent_alive p (.inl h₄.onCpu.alive) h₄.initproc.symm
  have hqp : q ≠ p := fun hqp => h₄.parent p List.not_mem_nil (hqp ▸ hq)
  rw [hq]
  refine Discipline.wp_bind hi₄ (Discipline.wp_mono ?_ (wp_wakeup hi₄ hHs (some p) (.proc q)))
  rintro - Hs' s₅ ⟨rfl, hr₅, hpend₅⟩ _
  exact wp_becomeZombie (h₄.rely hr₅ rfl) ((keepsFamily_of_rely hr₅ rfl p).parent.trans hq)
    (hpend₅ .wait rfl rfl q (by simpa using hqp)) status

/-! ### wait -/

/-- What `wait` knows in its loop over the table, when the slots in `rest` have yet to be looked
at. -/
structure Scanning (p : Fin NPROC) (rest : List (Fin NPROC)) (s : State H) : Prop where
  onCpu : OnCpu p none s
  family : Family ∅ s
  kids : ∀ j ∉ rest, (s.slot j).parent = some p → (s.slot j).state ≠ .zombie

lemma Scanning.rely {s' : State H} {rest : List (Fin NPROC)} (h : Scanning p rest s)
    (hr : (disc H).Rely (.proc p) Hs s s') (hw : .wait ∈ Hs) : Scanning p rest s' where
  onCpu := h.onCpu.rely hr
  family := family_of_rely hr hw h.family
  kids j hj hpar hz := by
    have hk := keepsFamily_of_rely hr hw j
    exact h.kids j hj (hk.parent ▸ hpar) (hk.zombie.mp hz)

lemma wp_reap (h : OnCpu p none s) (hfam : Family ∅ s) (hfree : ProcFree s i)
    (hz : (s.slot i).state = .zombie) (hpar : (s.slot i).parent = some p) :
    (disc H).wp (.proc p) (reap p i) (fun _ Hs' s' => Hs' = {.proc i, .wait} ∧ OnCpu p none s' ∧
      Family ∅ s' ∧ ProcFree s' i) {.proc i, .wait} s := by
  refine Discipline.wp_choice fun copied => ?_
  split_ifs
  · refine Discipline.wp_update (g := pure) fun s₁ hr₁ hi₁ => ?_
    have h₁ := h.rely hr₁
    have hfam₁ := family_of_rely hr₁ (.inr rfl) hfam
    have hfree₁ : ProcFree s₁ i := hr₁.lockInv (.inl rfl) hfree
    have hz₁ : (s₁.slot i).state = .zombie := (frozen_of_rely hr₁ (.inl rfl)).state.trans hz
    have hpar₁ := (keepsFamily_of_rely hr₁ (.inr rfl) i).parent.trans hpar
    have hoff : OffCpu s₁ i := hfree₁.offCpu (by simp [hz₁])
    have hip : i ≠ p := by
      rintro rfl
      simp [h₁.running] at hz₁
    refine ⟨.slot i _ (.log (.reaped i p _)) (.reap p _ rfl (.inl rfl) (.inr rfl) hz₁ hpar₁ hoff
      rfl rfl), awaits_setSlot s₁ rfl, fun _ => Discipline.wp_ret fun s₂ hr₂ _ => ?_⟩
    have h₂ := h₁.setOther (x := (s₁.slot i).map (·.freeproc)) hip rfl
    have hfam₂ := hfam₁.reap (x := (s₁.slot i).map (·.freeproc)) hi₁.init_alive hz₁ rfl
    have hfree₂ : ProcFree (s₁.setSlot i ((s₁.slot i).map (·.freeproc))) i :=
      hfree₁.setSlot rfl rfl (by simp [Proc.freeproc, hz₁])
    exact ⟨rfl, (h₂.setHist _).rely hr₂, family_of_rely hr₂ (.inr rfl) (hfam₂.setHist _),
      hr₂.lockInv (.inl rfl) (hfree₂.setHist _)⟩
  · exact Discipline.wp_ret fun s₁ hr₁ _ => ⟨rfl, h.rely hr₁, family_of_rely hr₁ (.inr rfl) hfam,
      hr₁.lockInv (.inl rfl) hfree⟩

/-- What `wait` knows after its loop over the table. -/
def Scanned (p : Fin NPROC) (s : State H) (Hs : Set Lock) : Scan → Prop
  | .done => Hs = ∅ ∧ OnCpu p none s
  | .none _ => Hs = {.wait} ∧ Scanning p [] s

lemma wp_waitScan {is : List (Fin NPROC)} {havekids : Bool} (h : Scanning p is s) :
    (disc H).wp (.proc p) (waitScan p is havekids) (fun r Hs' s' => Scanned p s' Hs' r)
      {.wait} s := by
  have hHs : NoProc {.wait} := noProc_singleton fun _ => Lock.noConfusion
  induction is generalizing s havekids with
  | nil => exact Discipline.wp_ret fun s' hr _ => ⟨rfl, h.rely hr rfl⟩
  | cons i is ih =>
    refine wp_read fun s₁ hr₁ _ => ?_
    have h₁ := h.rely hr₁ rfl
    split_ifs with hmine
    swap
    · refine ih { h₁ with kids := fun j hj hpar => ?_ }
      by_cases hji : j = i
      · have hne : (s₁.slot i).parent ≠ some p := by simpa using hmine
        exact absurd (hji ▸ hpar) hne
      · exact h₁.kids j (by simp [hji, hj]) hpar
    refine Discipline.wp_lock (hHs.order _) (hHs i) fun s₂ hr₂ _ hfree₂ => ?_
    refine wp_read fun s₃ hr₃ hi₃ => ?_
    have hr := hr₂.trans (hr₃.mono (Set.subset_insert _ _))
    have h₃ := h₁.rely hr rfl
    have hfree₃ : ProcFree s₃ i := hr₃.lockInv (.inl rfl) hfree₂
    split_ifs with hzombie
    · have hpar : (s₃.slot i).parent = some p :=
        (keepsFamily_of_rely hr rfl i).parent.trans (by simpa using hmine)
      refine Discipline.wp_bind hi₃ (Discipline.wp_mono ?_
        (wp_reap h₃.onCpu h₃.family hfree₃ (by simpa using hzombie) hpar))
      rintro - Hs' s₄ ⟨rfl, h₄, hfam₄, hfree₄⟩ _
      refine Discipline.wp_unlock (.inl rfl) (pair_sdiff_left Lock.noConfusion) fun s₅ hr₅ _ =>
        ⟨hr₅.lockInv (.inl rfl) hfree₄, ?_⟩
      have hfam₅ := family_of_rely hr₅ (.inr rfl) hfam₄
      refine Discipline.wp_unlock rfl Set.sdiff_self fun s₆ hr₆ _ =>
        ⟨family_of_rely hr₆ rfl hfam₅, Discipline.wp_ret fun s₇ hr₇ _ => ⟨rfl, ?_⟩⟩
      exact ((h₄.rely hr₅).rely hr₆).rely hr₇
    · refine Discipline.wp_unlock (.inl rfl) (pair_sdiff_left Lock.noConfusion) fun s₄ hr₄ _ =>
        ⟨hr₄.lockInv (.inl rfl) hfree₃, ?_⟩
      have h₄ := h₃.rely hr₄ (.inr rfl)
      refine ih { h₄ with kids := fun j hj hpar => ?_ }
      by_cases hji : j = i
      · rw [hji, Ne, (keepsFamily_of_rely hr₄ (.inr rfl) i).zombie]
        simpa using hzombie
      · exact h₄.kids j (by simp [hji, hj]) hpar

lemma wp_waitLoop (hs : Inv s) (h : OnCpu p none s) (hfam : Family ∅ s) :
    (disc H).wp (.proc p) (waitLoop p) (fun e _ _ => e.elim) {.wait} s := by
  refine Discipline.wp_bind hs (Discipline.wp_mono ?_ (wp_waitScan
    ⟨h, hfam, fun j hj => absurd (List.mem_finRange j) hj⟩))
  rintro (_ | havekids) Hs' s₁ hscan hi₁
  · obtain ⟨rfl, h₁⟩ := hscan
    exact fun s₂ hr₂ _ => ⟨rfl, rfl, h₁.rely hr₂⟩
  · obtain ⟨rfl, h₁⟩ := hscan
    refine wp_read fun s₂ hr₂ hi₂ => ?_
    have h₂ := h₁.rely hr₂ rfl
    split_ifs
    · refine Discipline.wp_unlock rfl Set.sdiff_self fun s₃ hr₃ _ =>
        ⟨family_of_rely hr₃ rfl h₂.family, fun s₄ hr₄ _ => ?_⟩
      exact ⟨rfl, rfl, (h₂.onCpu.rely hr₃).rely hr₄⟩
    · refine Discipline.wp_bind hi₂ (Discipline.wp_mono ?_ (wp_sleep (fun _ => Lock.noConfusion)
        rfl h₂.onCpu h₂.family fun s₃ hr₃ _ hfam₃ => ?_))
      · rintro - Hs' s₃ ⟨rfl, h₃, hfam₃⟩ _ s₄ hr₄ _
        exact ⟨rfl, rfl, h₃.rely hr₄, family_of_rely hr₄ rfl hfam₃⟩
      · have h₃ := h₂.rely hr₃ rfl
        exact hfam₃.drowse (fun j => h₃.kids j List.not_mem_nil) _

end Xv6.Sched
