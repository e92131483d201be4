import Xv6.Sched.Rely

/-!
# The functions of the kernel keep to the discipline

One lemma for each function: from which facts it runs, with which locks, and what its caller knows
afterwards. Loops that only visit slots one by one do nothing that the other threads might not do
as well, so that all facts that are stable survive them.
-/

namespace Xv6.Sched

open Core Relation

variable {H : Type} [DecidableEq H] {α β : Type} {t : Thread H} {Hs : Set Lock} {s s' : State H}
  {Q : β → Set Lock → State H → Prop}

/-! ### Instructions -/

/-- No lock of a process is among the locks. -/
def NoProc (Hs : Set Lock) : Prop := ∀ i, Lock.proc i ∉ Hs

lemma NoProc.order (h : NoProc Hs) (l : Lock) : (disc H).order t Hs l :=
  fun i _ _ hi => absurd hi (h i)

lemma noProc_empty : NoProc ∅ := fun _ => Set.notMem_empty _

lemma noProc_singleton {l : Lock} (h : ∀ i, l ≠ .proc i) : NoProc {l} :=
  fun i hi => h i hi.symm

lemma NoProc.insert (hHs : NoProc Hs) {l : Lock} (h : ∀ i, l ≠ .proc i) : NoProc (insert l Hs) := by
  rintro i (hi | hi)
  · exact h i hi.symm
  · exact hHs i hi

lemma wp_read {r : State H → α} {g : α → Kernel H β}
    (h : ∀ s', (disc H).Rely t Hs s s' → Inv s' → (disc H).wp t (g (r s')) Q Hs s') :
    (disc H).wp t (read r >>= g) Q Hs s :=
  Discipline.wp_update fun s' hr hi => ⟨.idle, rfl, fun _ => h s' hr hi⟩

variable {i : Fin NPROC}

/-- The update of a slot that does not move the process to or from a hart. -/
lemma wp_setSlot {f : State H → Slot H} {g : Unit → Kernel H β}
    (h : ∀ s', (disc H).Rely t Hs s s' → Inv s' →
      SlotAct t Hs s' i (f s') .none ∧ (f s').hart = (s'.slot i).hart ∧
        (Inv (s'.setSlot i (f s')) → (disc H).wp t (g ()) Q Hs (s'.setSlot i (f s')))) :
    (disc H).wp t ((modify fun s => s.setSlot i (f s)) >>= g) Q Hs s := by
  refine Discipline.wp_update fun s' hr hi => ?_
  obtain ⟨hact, hhart, hk⟩ := h s' hr hi
  exact ⟨.slot i _ _ hact, awaits_setSlot s' hhart, hk⟩

/-! ### Visiting the slots -/

lemma exists_thread_ne (t : Thread H) : ∃ t' : Thread H, t' ≠ t := by
  by_cases h : t = .proc 0
  · refine ⟨.proc 1, fun h' => ?_⟩
    exact absurd (Thread.proc.inj (h'.trans h)) (by decide)
  · exact ⟨.proc 0, Ne.symm h⟩

/-- A calm update of a slot is like one by another thread. -/
lemma rely_calm (hs : Inv s) (hl : .proc i ∉ Hs) {p : Proc} (h : Calm (s.slot i).toProc p) :
    (disc H).Rely t Hs s (s.setSlot i { s.slot i with toProc := p }) := by
  obtain ⟨t', ht'⟩ := exists_thread_ne t
  refine ReflTransGen.single ⟨hs, t', ht', {.proc i}, ?_, .slot i _ .none (.calm p rfl h)⟩
  exact Set.disjoint_singleton_right.mpr hl

lemma wp_visit {f : Proc → Proc} {B : State H → Prop} (hHs : NoProc Hs)
    (hf : ∀ p, Calm p (f p)) (hB : ∀ s, ProcFree s i → B (s.setSlot i ((s.slot i).map f)))
    (hBr : ∀ s s', B s → (disc H).Rely t Hs s s' → B s') :
    (disc H).wp t (visit i f)
      (fun _ Hs' s' => Hs' = Hs ∧ (disc H).Rely t Hs s s' ∧ B s') Hs s := by
  have hsub : Hs ⊆ insert (.proc i) Hs := Set.subset_insert _ _
  refine Discipline.wp_lock (hHs.order _) (hHs i) fun s₁ hr₁ hi₁ hfree₁ => ?_
  refine wp_setSlot fun s₂ hr₂ hi₂ => ⟨.calm _ (Set.mem_insert _ _) (hf _), rfl, fun _ => ?_⟩
  have hfree₂ : ProcFree s₂ i := hr₂.lockInv (Set.mem_insert _ _) hfree₁
  refine Discipline.wp_unlock (g := pure) (Set.mem_insert _ _)
    (Set.insert_sdiff_self_of_notMem (hHs i)) fun s₃ hr₃ hi₃ => ?_
  refine ⟨hr₃.lockInv (Set.mem_insert _ _) (hfree₂.calm (hf _)), fun s₄ hr₄ _ => ⟨rfl, ?_, ?_⟩⟩
  · have hcalm := rely_calm (t := t) hi₂ (hHs i) (hf (s₂.slot i).toProc)
    exact hr₁.trans ((hr₂.mono hsub).trans (hcalm.trans ((hr₃.mono hsub).trans hr₄)))
  · exact hBr _ _ (hB s₂ hfree₂) ((hr₃.mono hsub).trans hr₄)

lemma wp_wakeup (hs : Inv s) (hHs : NoProc Hs) (me : Option (Fin NPROC)) (chan : Chan) :
    (disc H).wp t (wakeup me chan) (fun _ Hs' s' => Hs' = Hs ∧ (disc H).Rely t Hs s s' ∧
      ∀ l ∈ Hs, chanLock chan = some l → ∀ i, some i ≠ me → ¬ (s'.slot i).Pending chan) Hs s := by
  refine Discipline.wp_mono ?_ (Discipline.wp_forM (A := fun rest s' => (disc H).Rely t Hs s s' ∧
      ∀ l ∈ Hs, chanLock chan = some l → ∀ i ∉ rest, some i ≠ me → ¬ (s'.slot i).Pending chan)
    ?_ ?_ hs ⟨.refl, ?_⟩)
  · rintro - Hs' s' ⟨rfl, hr, hpend⟩
    exact ⟨rfl, hr, fun l hl hchan i hi => hpend l hl hchan i List.not_mem_nil hi⟩
  · rintro s₁ s₂ ⟨hr, hpend⟩ hr'
    refine ⟨hr.trans hr', fun l hl hchan i hi hme => ?_⟩
    exact not_pending_of_rely hr' hl hchan (hpend l hl hchan i hi hme)
  · rintro i is s₁ hi₁ ⟨hr, hpend⟩
    split_ifs with hme
    · refine Discipline.wp_mono ?_ (wp_visit (B := fun s' => ∀ l ∈ Hs, chanLock chan = some l →
        ¬ (s'.slot i).Pending chan) hHs (fun p => calm_wakeup p chan) ?_ ?_)
      · rintro - Hs' s₂ ⟨rfl, hr', hB⟩
        refine ⟨rfl, hr.trans hr', fun l hl hchan j hj hjme => ?_⟩
        by_cases hji : j = i
        · rw [hji]
          exact hB l hl hchan
        · exact not_pending_of_rely hr' hl hchan (hpend l hl hchan j (by simp [hji, hj]) hjme)
      · intro s₂ hfree l _ _
        simpa using not_pending_wakeup hfree chan
      · intro s₂ s₃ hB hr' l hl hchan
        exact not_pending_of_rely hr' hl hchan (hB l hl hchan)
    · refine Discipline.wp_ret fun s₂ hr' _ => ⟨rfl, hr.trans hr', fun l hl hchan j hj hjme => ?_⟩
      have hji : j ≠ i := fun hji => hjme (by rw [hji]; exact not_not.mp hme)
      exact not_pending_of_rely hr' hl hchan (hpend l hl hchan j (by simp [hji, hj]) hjme)
  · intro l _ _ i hi
    exact absurd (List.mem_finRange i) hi

lemma wp_updateTime (hs : Inv s) (hHs : NoProc Hs) :
    (disc H).wp t updateTime (fun _ Hs' s' => Hs' = Hs ∧ (disc H).Rely t Hs s s') Hs s := by
  refine Discipline.wp_forM (A := fun _ s' => (disc H).Rely t Hs s s')
    (fun _ _ hr hr' => hr.trans hr') ?_ hs .refl
  intro i is s₁ _ hr
  refine Discipline.wp_mono ?_ (wp_visit (B := fun _ => True) hHs calm_updateTime
    (fun _ _ => trivial) (fun _ _ _ _ => trivial))
  rintro - Hs' s₂ ⟨rfl, hr', -⟩
  exact ⟨rfl, hr.trans hr'⟩

/-! ### Interrupts without a context switch -/

lemma rely_act (hs : Inv s) {Hs' : Set Lock} (hdisj : Disjoint Hs Hs')
    (h : ∀ t', Act t' Hs' s s') : (disc H).Rely t Hs s s' := by
  obtain ⟨t', ht'⟩ := exists_thread_ne t
  exact ReflTransGen.single ⟨hs, t', ht', Hs', hdisj, h t'⟩

lemma insert_empty_sdiff (l : Lock) : insert l (∅ : Set Lock) \ {l} = ∅ :=
  Set.insert_sdiff_self_of_notMem (Set.notMem_empty l)

lemma wp_clockintr (me : Option (Fin NPROC)) :
    (disc H).wp t (clockintr me) (fun _ Hs' s' => Hs' = ∅ ∧ (disc H).Rely t ∅ s s') ∅ s := by
  have hHs : NoProc (insert .ticks ∅) := noProc_empty.insert fun _ => Lock.noConfusion
  have hsub := Set.empty_subset (insert Lock.ticks ∅)
  refine Discipline.wp_lock (noProc_empty.order _) (Set.notMem_empty _) fun s₁ hr₁ hi₁ _ => ?_
  refine Discipline.wp_update fun s₂ hr₂ hi₂ => ⟨.setTicks _, rfl, fun hi₃ => ?_⟩
  refine Discipline.wp_bind hi₃ (Discipline.wp_mono ?_ (wp_updateTime hi₃ hHs))
  rintro - Hs' s₄ ⟨rfl, hr₄⟩ hi₄
  refine Discipline.wp_bind hi₄ (Discipline.wp_mono ?_ (wp_wakeup hi₄ hHs me .ticks))
  rintro - Hs' s₅ ⟨rfl, hr₅, -⟩ hi₅
  refine Discipline.wp_unlock (g := pure) (Set.mem_insert _ _) (insert_empty_sdiff _)
    fun s₆ hr₆ _ => ⟨trivial, fun s₇ hr₇ _ => ⟨rfl, ?_⟩⟩
  have htick : (disc H).Rely t ∅ s₂ { s₂ with ticks := s₂.ticks + 1 } :=
    rely_act hi₂ (Set.empty_disjoint ∅) fun _ => .setTicks _
  exact hr₁.trans <| (hr₂.mono hsub).trans <| htick.trans <| (hr₄.mono hsub).trans <|
    (hr₅.mono hsub).trans <| (hr₆.mono hsub).trans hr₇

lemma wp_signal (me : Option (Fin NPROC)) (k : ℕ)
    (hme : ∀ p, me = some p → t = .proc p ∧ ∃ o, OnCpu p o s) :
    (disc H).wp t (signal me k) (fun _ Hs' s' => Hs' = ∅ ∧ (disc H).Rely t ∅ s s') ∅ s := by
  have hHs : NoProc (insert (.obj k) ∅) := noProc_empty.insert fun _ => Lock.noConfusion
  have hsub := Set.empty_subset (insert (Lock.obj k) ∅)
  refine Discipline.wp_lock (noProc_empty.order _) (Set.notMem_empty _) fun s₁ hr₁ hi₁ _ => ?_
  refine Discipline.wp_update fun s₂ hr₂ hi₂ =>
    ⟨.setCond k true (Set.mem_insert _ _), rfl, fun hi₃ => ?_⟩
  refine Discipline.wp_bind hi₃ (Discipline.wp_mono ?_ (wp_wakeup hi₃ hHs me (condChan k)))
  rintro - Hs' s₄ ⟨rfl, hr₄, hpend⟩ hi₄
  have hcond : (disc H).Rely t ∅ s₂ { s₂ with cond := Function.update s₂.cond k true } :=
    rely_act hi₂ (Set.empty_disjoint {.obj k}) fun _ => .setCond k true rfl
  have hr : (disc H).Rely t ∅ s s₄ :=
    hr₁.trans <| (hr₂.mono hsub).trans <| hcond.trans (hr₄.mono hsub)
  refine Discipline.wp_unlock (g := pure) (Set.mem_insert _ _) (insert_empty_sdiff _)
    fun s₅ hr₅ _ => ⟨fun _ i => ?_, fun s₆ hr₆ _ => ⟨rfl, hr.trans ((hr₅.mono hsub).trans hr₆)⟩⟩
  -- the process that signals is not asleep itself
  by_cases hi : some i = me
  · obtain ⟨rfl, o, ho⟩ := hme i hi.symm
    exact (ho.rely (hr.trans (hr₅.mono hsub))).not_pending _
  · exact not_pending_of_rely hr₅ (Set.mem_insert _ _) rfl
      (hpend (.obj k) (Set.mem_insert _ _) rfl i hi)

/-! ### Context switches of a process -/

variable {p : Fin NPROC} {o : Option Creation}

lemma awaits_leave {c : H} (hs : Inv s) (hc : (s.slot p).hart = some c) :
    awaits (s.setSlot p { s.slot p with hart := none }) =
      Function.update (Function.update (awaits s) (.sched c) none) (.proc p) (some (.proc p)) := by
  have hcpu := hs.cpu_of_hart p c hc
  funext t'
  cases t' with
  | proc q =>
    by_cases hq : q = p
    · simp [awaits, hq]
    · simp [awaits, hq]
  | sched c' =>
    by_cases hc' : c' = c
    · simp [awaits, hc', hcpu]
    · have hne : s.cpu c' ≠ some p := fun h => hc' (hs.cpu_inj c' c p h hcpu)
      simp only [awaits, setSlot_cpu, setSlot_slot, ne_eq, reduceCtorEq, not_false_eq_true,
        Function.update_of_ne, Thread.sched.injEq, hc']
      split
      · rename_i q hq
        have hqp : q ≠ p := fun h => hne (h ▸ hq)
        simp [hqp]
      · rfl

/-- A process that is not running gives up the hart. What it knew before it knows afterwards. -/
lemma wp_sched {A : State H → Prop}
    (hA : ∀ s, A s → A (s.setSlot p { s.slot p with hart := none }))
    (hAr : ∀ Hs s s', A s → (disc H).Rely (.proc p) Hs s s' → A s') (hs : A s)
    (hstate : (s.slot p).state ≠ .running) (hhart : (s.slot p).hart ≠ none)
    (hdrowsy : (s.slot p).drowsy = none) :
    (disc H).wp (.proc p) (sched p)
      (fun _ Hs' s' => Hs' = {.proc p} ∧ Resumed p s' ∧ A s') {.proc p} s := by
  refine wp_read fun s₁ hr₁ hi₁ => ?_
  have hf₁ := frozen_of_rely hr₁ rfl
  rw [if_neg (by simpa [hf₁.state] using hstate)]
  refine Discipline.wp_swtch (g := pure) fun s₂ hr₂ hi₂ => ?_
  have hf₂ := frozen_of_rely (hr₁.trans hr₂) rfl
  obtain ⟨c, hc⟩ := Option.ne_none_iff_exists'.mp (hf₂.hart.symm ▸ hhart)
  have hcpu := hi₂.cpu_of_hart p c hc
  refine ⟨.sched c, by simp [State.schedOf, hc],
    .slot p _ .none (.leave rfl rfl (hf₂.state ▸ hstate)), ?_, awaits_leave hi₂ hc, ?_, ?_⟩
  · simp [threads, awaits, hcpu, hc]
  · exact ⟨p, rfl, by simpa, by simp, by simpa [hf₂.state] using hstate,
      by simpa [hf₂.drowsy] using hdrowsy⟩
  · intro s₃ hr₃ hi₃ hres s₄ hr₄ hi₄
    refine ⟨rfl, hres.2.rely hr₄ rfl, ?_⟩
    exact hAr _ _ _ (hAr _ _ _ (hA _ (hAr _ _ _ hs (hr₁.trans hr₂))) hr₃) hr₄

section

variable {g : Unit → Kernel H β}

/-- A process locks a slot. -/
lemma wp_lockSlot (h : OnCpu p o s)
    (hk : ∀ s', Inv s' → OnCpu p o s' → ProcFree s' i →
      (disc H).wp (.proc p) (g ()) Q {.proc i} s') :
    (disc H).wp (.proc p) (lock (.proc i) >>= g) Q ∅ s := by
  refine Discipline.wp_lock (noProc_empty.order _) (Set.notMem_empty _) fun s' hr hi hfree => ?_
  rw [insert_empty_eq]
  exact hk s' hi (h.rely hr) hfree

lemma wp_unlockSlot (h : OnCpu p o s) (hfree : ProcFree s i)
    (hk : ∀ s', Inv s' → OnCpu p o s' → (disc H).wp (.proc p) (g ()) Q ∅ s') :
    (disc H).wp (.proc p) (unlock (.proc i) >>= g) Q {.proc i} s := by
  refine Discipline.wp_unlock rfl Set.sdiff_self fun s' hr hi => ?_
  exact ⟨hr.lockInv rfl hfree, hk s' hi (h.rely hr)⟩

/-- A process makes a calm update of a slot, which may be its own. -/
lemma wp_calmSlot {f : Proc → Proc} (hf : ∀ p, Calm p (f p)) (h : OnCpu p o s)
    (hfree : ProcFree s i)
    (hk : ∀ s', OnCpu p o s' → ProcFree s' i → (disc H).wp (.proc p) (g ()) Q {.proc i} s') :
    (disc H).wp (.proc p) (modifyProc i f >>= g) Q {.proc i} s := by
  refine wp_setSlot fun s' hr hi => ⟨.calm _ rfl (hf _), rfl, fun _ => ?_⟩
  have hfree' : ProcFree s' i := hr.lockInv rfl hfree
  exact hk _ ((h.rely hr).rely (rely_calm hi (Set.notMem_empty _) (hf _))) (hfree'.calm (hf _))

lemma wp_readSlot {r : State H → α} {g : α → Kernel H β} (h : OnCpu p o s) (hfree : ProcFree s i)
    (hk : ∀ s', Inv s' → OnCpu p o s' → ProcFree s' i →
      (disc H).wp (.proc p) (g (r s')) Q {.proc i} s') :
    (disc H).wp (.proc p) (read r >>= g) Q {.proc i} s :=
  wp_read fun s' hr hi => hk s' hi (h.rely hr) (hr.lockInv rfl hfree)

end

lemma wp_yield (h : OnCpu p o s) :
    (disc H).wp (.proc p) (yield p) (fun _ Hs' s' => Hs' = ∅ ∧ OnCpu p o s') ∅ s := by
  refine Discipline.wp_lock (noProc_empty.order _) (Set.notMem_empty _) fun s₁ hr₁ _ _ => ?_
  rw [insert_empty_eq]
  refine wp_setSlot fun s₂ hr₂ _ => ?_
  have h₂ := (h.rely hr₁).rely hr₂
  refine ⟨.yield rfl rfl h₂.running, rfl, fun hi₃ => ?_⟩
  have h₃ : Ours p o (s₂.setSlot p { s₂.slot p with state := .runnable }) :=
    h₂.setSelf (.inr (.inl rfl)) h₂.fresh rfl
  refine Discipline.wp_bind hi₃ (Discipline.wp_mono ?_ (wp_sched (fun _ => Ours.leave)
    (fun _ _ _ => Ours.rely) h₃ (by simp [Proc.yield]) (by simpa using h₂.hart)
    (by simpa using h₂.drowsy)))
  rintro - Hs' s₄ ⟨rfl, hres, h₄⟩ _
  refine wp_unlockSlot (g := pure) (hres.onCpu h₄) hres.procFree fun s₅ _ h₅ => ?_
  exact Discipline.wp_ret fun s₆ hr₆ _ => ⟨rfl, h₅.rely hr₆⟩

lemma wp_interrupt (hs : Inv s) (h : OnCpu p o s) (i : Intr) :
    (disc H).wp (.proc p) (interrupt (some p) i) (fun _ Hs' s' => Hs' = ∅ ∧ OnCpu p o s') ∅ s := by
  cases i with
  | clock preempt =>
    refine Discipline.wp_bind hs (Discipline.wp_mono ?_ (wp_clockintr (some p)))
    rintro - Hs' s₁ ⟨rfl, hr₁⟩ _
    cases preempt with
    | true => exact wp_yield (h.rely hr₁)
    | false => exact Discipline.wp_ret fun s₂ hr₂ _ => ⟨rfl, (h.rely hr₁).rely hr₂⟩
  | device k =>
    refine Discipline.wp_mono ?_ (wp_signal (some p) k ?_)
    · rintro - Hs' s₁ ⟨rfl, hr₁⟩
      exact ⟨rfl, h.rely hr₁⟩
    · rintro q ⟨⟩
      exact ⟨rfl, o, h⟩

lemma wp_interrupts (hs : Inv s) (h : OnCpu p o s) :
    (disc H).wp (.proc p) (interrupts (some p)) (fun _ Hs' s' => Hs' = ∅ ∧ OnCpu p o s') ∅ s := by
  refine Discipline.wp_choice fun is => ?_
  refine Discipline.wp_forM (D := disc H) (A := fun _ s => OnCpu p o s) ?_ ?_ hs h
  · exact fun _ _ => OnCpu.rely
  · exact fun i _ _ hi h => wp_interrupt hi h i

/-- On a hart without a process, interrupts are like other threads. -/
lemma wp_interrupts_none (hs : Inv s) :
    (disc H).wp t (interrupts none) (fun _ Hs' s' => Hs' = ∅ ∧ (disc H).Rely t ∅ s s') ∅ s := by
  refine Discipline.wp_choice fun is => ?_
  refine Discipline.wp_forM (A := fun _ s' => (disc H).Rely t ∅ s s')
    (fun _ _ hr hr' => hr.trans hr') ?_ hs .refl
  intro i _ s₁ hi₁ hr
  cases i with
  | clock preempt =>
    refine Discipline.wp_bind hi₁ (Discipline.wp_mono ?_ (wp_clockintr none))
    rintro - Hs' s₂ ⟨rfl, hr₂⟩ _
    exact Discipline.wp_ret fun s₃ hr₃ _ => ⟨rfl, hr.trans (hr₂.trans hr₃)⟩
  | device k =>
    refine Discipline.wp_mono ?_ (wp_signal none k (fun _ hp => nomatch hp))
    rintro - Hs' s₂ ⟨rfl, hr₂⟩
    exact ⟨rfl, hr.trans hr₂⟩

lemma pair_sdiff_left {a b : Lock} (h : a ≠ b) : ({a, b} : Set Lock) \ {a} = {b} :=
  Set.insert_sdiff_self_of_notMem h

lemma pair_sdiff_right {a b : Lock} (h : a ≠ b) : ({a, b} : Set Lock) \ {b} = {a} := by
  rw [Set.pair_comm]
  exact pair_sdiff_left h.symm

/-- `sleep`, called with the lock of the channel, gives back what the lock protects. That the
process is about to sleep must not break what the lock protects. -/
lemma wp_sleep {chan : Chan} {lk : Lock} (hlk : ∀ i, lk ≠ .proc i)
    (hchan : chanLock chan = some lk) (h : OnCpu p o s) (hfree : (disc H).lockInv lk s)
    (hdrowse : ∀ s', (disc H).Rely (.proc p) {lk} s s' → Inv s' → (disc H).lockInv lk s' →
      (disc H).lockInv lk (s'.setSlot p { s'.slot p with drowsy := some chan })) :
    (disc H).wp (.proc p) (sleep p chan lk)
      (fun _ Hs' s' => Hs' = {lk} ∧ OnCpu p o s' ∧ (disc H).lockInv lk s') {lk} s := by
  have hlp : Lock.proc p ≠ lk := (hlk p).symm
  have hsub : ({lk} : Set Lock) ⊆ {.proc p, lk} := Set.subset_insert _ _
  have hmem : lk ∈ ({.proc p, lk} : Set Lock) := .inr rfl
  refine Discipline.wp_lock ((noProc_singleton hlk).order _) hlp fun s₁ hr₁ _ _ => ?_
  refine wp_setSlot fun s₂ hr₂ hi₂ => ?_
  have hr := hr₁.trans (hr₂.mono hsub)
  have h₂ := h.rely hr
  refine ⟨.drowse chan rfl (.inl rfl) h₂.running ?_, rfl, fun _ => ?_⟩
  · rintro l hl
    exact .inr (Option.some.inj (hl.symm.trans hchan))
  have hfree₃ := hdrowse s₂ hr hi₂ (hr.lockInv rfl hfree)
  refine Discipline.wp_unlock hmem (pair_sdiff_right hlp) fun s₄ hr₄ _ =>
    ⟨hr₄.lockInv hmem hfree₃, ?_⟩
  refine wp_setSlot fun s₅ hr₅ _ => ?_
  -- without `lk`, the lock of the slot is what the process relies on
  have hr₅ := (hr₄.mono (Set.singleton_subset_iff.mpr (.inl rfl))).trans hr₅
  have hf₅ := frozen_of_rely hr₅ rfl
  have hrun₅ : (s₅.slot p).state = .running := hf₅.state.trans (by simpa using h₂.running)
  have hhart₅ : (s₅.slot p).hart ≠ none := by
    rw [hf₅.hart]
    simpa using h₂.hart
  have h₃ : Ours p o (s₂.setSlot p { s₂.slot p with drowsy := some chan }) :=
    h₂.setSelf h₂.alive h₂.fresh rfl
  have h₅ := h₃.rely hr₅
  refine ⟨.doze chan rfl rfl hrun₅ (hf₅.drowsy.trans (by simp)), rfl, fun hi₆ => ?_⟩
  refine Discipline.wp_bind hi₆ (Discipline.wp_mono ?_ (wp_sched (fun _ => Ours.leave)
    (fun _ _ _ => Ours.rely) (h₅.setSelf (.inl rfl) h₅.fresh rfl) (by simp [Proc.sleep])
    (by simpa using hhart₅) (by simp)))
  rintro - Hs' s₇ ⟨rfl, hres, h₇⟩ hi₇
  refine wp_setSlot fun s₈ hr₈ _ => ?_
  have h₈ := (hres.onCpu h₇).rely hr₈
  refine ⟨.unchan rfl rfl h₈.running, rfl, fun _ => ?_⟩
  have h₉ : OnCpu p o (s₈.setSlot p { s₈.slot p with chan := .null }) :=
    ⟨h₈.setSelf h₈.alive h₈.fresh rfl, by simpa using h₈.running, by simpa using h₈.hart,
      by simpa using h₈.drowsy⟩
  refine wp_unlockSlot h₉ h₉.procFree fun s₁₀ hi₁₀ h₁₀ => ?_
  refine Discipline.wp_bind hi₁₀ (Discipline.wp_mono ?_ (wp_interrupts hi₁₀ h₁₀))
  rintro - Hs' s₁₁ ⟨rfl, h₁₁⟩ _
  refine Discipline.wp_lock (g := pure) (noProc_empty.order _) (Set.notMem_empty _)
    fun s₁₂ hr₁₂ _ hfree => ?_
  rw [insert_empty_eq]
  exact Discipline.wp_ret fun s₁₃ hr₁₃ _ =>
    ⟨rfl, (h₁₁.rely hr₁₂).rely hr₁₃, hr₁₃.lockInv rfl hfree⟩

/-! ### Operations by pid -/

lemma wp_killLoop (pid : Int32) (is : List (Fin NPROC)) (hs : Inv s) (h : OnCpu p o s) :
    (disc H).wp (.proc p) (killLoop p pid is) (fun _ Hs' s' => Hs' = ∅ ∧ OnCpu p o s') ∅ s := by
  induction is generalizing s with
  | nil => exact Discipline.wp_ret fun s' hr _ => ⟨rfl, h.rely hr⟩
  | cons i is ih =>
    refine wp_lockSlot h fun s₁ _ h₁ hfree₁ => ?_
    refine wp_readSlot h₁ hfree₁ fun s₂ _ h₂ hfree₂ => ?_
    split_ifs with hpid
    · refine wp_calmSlot calm_kill h₂ hfree₂ fun s₃ h₃ hfree₃ => ?_
      refine wp_unlockSlot (g := pure) h₃ hfree₃ fun s₄ _ h₄ => ?_
      exact Discipline.wp_ret fun s₅ hr₅ _ => ⟨rfl, h₄.rely hr₅⟩
    · refine wp_unlockSlot h₂ hfree₂ fun s₃ hi₃ h₃ => ?_
      refine Discipline.wp_bind hi₃ (Discipline.wp_mono ?_ (wp_interrupts hi₃ h₃))
      rintro - Hs' s₄ ⟨rfl, h₄⟩ hi₄
      exact ih hi₄ h₄

lemma wp_setpriorityLoop (newPriority pid : Int32) (is : List (Fin NPROC)) (hs : Inv s)
    (h : OnCpu p o s) :
    (disc H).wp (.proc p) (setpriorityLoop p newPriority pid is)
      (fun _ Hs' s' => Hs' = ∅ ∧ OnCpu p o s') ∅ s := by
  induction is generalizing s with
  | nil => exact Discipline.wp_ret fun s' hr _ => ⟨rfl, h.rely hr⟩
  | cons i is ih =>
    refine wp_lockSlot h fun s₁ _ h₁ hfree₁ => ?_
    refine wp_readSlot h₁ hfree₁ fun s₂ _ h₂ hfree₂ => ?_
    split_ifs with hpid
    · refine wp_readSlot h₂ hfree₂ fun s₃ _ h₃ hfree₃ => ?_
      refine wp_calmSlot (fun q => calm_setpriority q newPriority) h₃ hfree₃ fun s₄ h₄ hfree₄ => ?_
      refine wp_unlockSlot h₄ hfree₄ fun s₅ hi₅ h₅ => ?_
      refine Discipline.wp_bind hi₅ (Discipline.wp_mono ?_ (wp_interrupts hi₅ h₅))
      rintro - Hs' s₆ ⟨rfl, h₆⟩ _
      split_ifs
      · exact wp_yield h₆
      · exact Discipline.wp_ret fun s₇ hr₇ _ => ⟨rfl, h₆.rely hr₇⟩
    · refine wp_unlockSlot h₂ hfree₂ fun s₃ hi₃ h₃ => ?_
      refine Discipline.wp_bind hi₃ (Discipline.wp_mono ?_ (wp_interrupts hi₃ h₃))
      rintro - Hs' s₄ ⟨rfl, h₄⟩ hi₄
      exact ih hi₄ h₄

end Xv6.Sched
