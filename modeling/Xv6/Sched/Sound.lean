import Xv6.Sched.Lifecycle

/-!
# The kernel keeps to the discipline

The remaining programs: the loops of a process, and the scheduler. Then the discipline holds in
every state that any interleaving of the harts can reach.
-/

namespace Xv6.Sched

open Core Relation

variable {H : Type}

lemma inv_boot (ticks : UInt32) : Inv (boot ticks : Conf (sig H)).state := by
  refine ⟨?_, ?_, fun i => ?_, ?_, fun i => ?_, trivial⟩
  · simp [boot]
  · simp [boot]
  · constructor <;> by_cases hi : i = 0 <;> simp [boot, hi, Proc.zero, Proc.allocproc]
  · simp [boot, Slot.Alive]
  · by_cases hi : i = 0 <;> simp [boot, hi, Proc.zero, zombieOf]

variable [DecidableEq H] {s : State H} {p : Fin NPROC} {k : ℕ}

/-! ### The loops of a process -/

lemma wp_condLoop (h : OnCpu p none s) (hfree : CondFree s k) :
    (disc H).wp (.proc p) (condLoop p k) (fun e _ _ => e.elim) {.obj k} s := by
  refine wp_read fun s₁ hr₁ hi₁ => ?_
  have h₁ := h.rely hr₁
  have hfree₁ : CondFree s₁ k := hr₁.lockInv rfl hfree
  split_ifs with hcond
  · refine Discipline.wp_choice fun keep => ?_
    refine Discipline.wp_update fun s₂ hr₂ hi₂ => ⟨.setCond k _ rfl, rfl, fun _ => ?_⟩
    have hfree₂ : CondFree s₂ k := hr₂.lockInv rfl hfree₁
    have hset : (disc H).Rely (.proc p) ∅ s₂
        { s₂ with cond := Function.update s₂.cond k (s₂.cond k && keep) } :=
      rely_act hi₂ (Set.empty_disjoint {.obj k}) fun _ => .setCond k _ rfl
    have h₃ := (h₁.rely hr₂).rely hset
    have hfree₃ : CondFree { s₂ with cond := Function.update s₂.cond k (s₂.cond k && keep) } k := by
      intro hk
      exact hfree₂ (Bool.and_elim_left (by simpa using hk))
    refine Discipline.wp_unlock rfl Set.sdiff_self fun s₄ hr₄ _ =>
      ⟨hr₄.lockInv rfl hfree₃, fun s₅ hr₅ _ => ?_⟩
    exact ⟨rfl, rfl, (h₃.rely hr₄).rely hr₅⟩
  · refine Discipline.wp_bind hi₁ (Discipline.wp_mono ?_ (wp_sleep (fun _ => Lock.noConfusion)
      rfl h₁ hfree₁ fun s₂ hr₂ _ _ => ?_))
    · rintro - Hs' s₂ ⟨rfl, h₂, hfree₂⟩ _ s₃ hr₃ _
      exact ⟨rfl, rfl, h₂.rely hr₃, hr₃.lockInv rfl hfree₂⟩
    · intro hk
      have hk₁ : s₁.cond k = true := (cond_of_rely hr₂ rfl).symm.trans hk
      exact absurd hk₁ hcond

lemma wp_entry (h : Resumed p s) (hun : Unstarted p s) :
    (disc H).wp (.proc p) (entry p) (fun e _ _ => e.elim) {.proc p} s := by
  refine Discipline.wp_update fun s₁ hr₁ _ => ?_
  have h₁ := h.rely hr₁ rfl
  have hun₁ := hun.rely hr₁
  have halive : (s₁.slot p).Alive := .inr (.inr h₁.running)
  have hfresh : (s₁.slot p).fresh = true := hun₁.dormant.resolve_right (not_not.mpr halive)
  refine ⟨.slot p _ .none (.start rfl rfl h₁.running), awaits_setSlot s₁ rfl, fun _ => ?_⟩
  rw [if_pos hfresh]
  have h₂ : OnCpu p none (s₁.setSlot p { s₁.slot p with fresh := false }) := by
    refine ⟨⟨by simpa [Slot.Alive] using halive, by simp, fun i hi => ?_, fun _ hc => nomatch hc⟩,
      by simpa using h₁.running, by simpa using h₁.hart, by simpa using h₁.drowsy⟩
    refine absurd ?_ (hun₁.creates i)
    by_cases hip : i = p
    · subst hip
      simpa using hi
    · simpa [hip] using hi
  exact wp_unlockSlot h₂ h₂.procFree fun s₃ _ h₃ s₄ hr₄ _ => ⟨rfl, rfl, h₃.rely hr₄⟩

/-- A call that returns to the process. -/
lemma wp_thenUser {f : Kernel H Unit} (hs : Inv s)
    (hf : (disc H).wp (.proc p) f (fun _ Hs' s' => Hs' = ∅ ∧ OnCpu p none s') ∅ s) :
    (disc H).wp (.proc p) (f >>= fun _ => goto (.user p)) (fun (e : Empty) _ _ => e.elim) ∅ s := by
  refine Discipline.wp_bind hs (Discipline.wp_mono ?_ hf)
  rintro - Hs' s₁ ⟨rfl, h₁⟩ _ s₂ hr₂ _
  exact ⟨rfl, rfl, h₁.rely hr₂⟩

lemma wp_wait (h : OnCpu p none s) :
    (disc H).wp (.proc p) (wait p) (fun e _ _ => e.elim) ∅ s := by
  refine Discipline.wp_lock (noProc_empty.order _) (Set.notMem_empty _) fun s₁ hr₁ _ hfam => ?_
  rw [insert_empty_eq]
  exact fun s₂ hr₂ _ => ⟨rfl, rfl, (h.rely hr₁).rely hr₂, family_of_rely hr₂ rfl hfam⟩

lemma wp_sleepOn (h : OnCpu p none s) :
    (disc H).wp (.proc p) (sleepOn p k) (fun e _ _ => e.elim) ∅ s := by
  refine Discipline.wp_lock (noProc_empty.order _) (Set.notMem_empty _) fun s₁ hr₁ _ hfree => ?_
  rw [insert_empty_eq]
  exact fun s₂ hr₂ _ => ⟨rfl, rfl, (h.rely hr₁).rely hr₂, hr₂.lockInv rfl hfree⟩

lemma wp_user (hs : Inv s) (h : OnCpu p none s) :
    (disc H).wp (.proc p) (user p) (fun e _ _ => e.elim) ∅ s := by
  refine Discipline.wp_bind hs (Discipline.wp_mono ?_ (wp_interrupts hs h))
  rintro - Hs' s₁ ⟨rfl, h₁⟩ hi₁
  refine Discipline.wp_choice fun c => ?_
  cases c with
  | exit status => exact wp_exit h₁ status
  | wait => exact wp_wait h₁
  | waitx => exact wp_wait h₁
  | sleepOn k => exact wp_sleepOn h₁
  | fork => exact wp_thenUser hi₁ (wp_fork hi₁ h₁)
  | kill pid => exact wp_thenUser hi₁ (wp_killLoop pid _ hi₁ h₁)
  | setpriority v pid => exact wp_thenUser hi₁ (wp_setpriorityLoop v pid _ hi₁ h₁)
  | yield => exact wp_thenUser hi₁ (wp_yield h₁)
  | wakeup chan =>
    refine wp_thenUser hi₁ (Discipline.wp_mono ?_ (wp_wakeup hi₁ noProc_empty (some p) chan))
    rintro - Hs' s₂ ⟨rfl, hr₂, -⟩
    exact ⟨rfl, h₁.rely hr₂⟩
  | signal k =>
    refine wp_thenUser hi₁ (Discipline.wp_mono ?_ (wp_signal (some p) k ?_))
    · rintro - Hs' s₂ ⟨rfl, hr₂⟩
      exact ⟨rfl, h₁.rely hr₂⟩
    · rintro q ⟨⟩
      exact ⟨rfl, none, h₁⟩

/-! ### The scheduler -/

variable {c : H} {t : Thread H} {Hs : Set Lock}

/-- The lock of the best process so far. -/
def bestLocks : Option (Fin NPROC × Int32) → Set Lock
  | none => ∅
  | some (b, _) => {.proc b}

/-- What the scheduler of hart `c` knows about the best process so far. -/
structure Best (c : H) (best : Option (Fin NPROC × Int32)) (s : State H) : Prop where
  cpu : s.cpu c = none
  runnable : ∀ b ∈ best, (s.slot b.1).state = .runnable
  free : ∀ b ∈ best, ProcFree s b.1

variable {best : Option (Fin NPROC × Int32)}

lemma mem_bestLocks {i : Fin NPROC} : .proc i ∈ bestLocks best ↔ ∃ b ∈ best, b.1 = i := by
  cases best with
  | none => simp [bestLocks]
  | some b => simp [bestLocks, eq_comm]

lemma Best.rely {s' : State H} (h : Best c best s)
    (hr : (disc H).Rely (.sched c) Hs s s') (hHs : bestLocks best ⊆ Hs) : Best c best s' where
  cpu := (cpu_of_rely hr).trans h.cpu
  runnable b hb := by
    have hl : .proc b.1 ∈ Hs := hHs (mem_bestLocks.mpr ⟨b, hb, rfl⟩)
    exact (frozen_of_rely hr hl).state.trans (h.runnable b hb)
  free b hb := by
    have hl : .proc b.1 ∈ Hs := hHs (mem_bestLocks.mpr ⟨b, hb, rfl⟩)
    exact hr.lockInv hl (h.free b hb)

lemma wp_interruptsIdle (hs : Inv s) (h : Best c best s) :
    (disc H).wp (.sched c) (interruptsIdle best)
      (fun _ Hs' s' => Hs' = bestLocks best ∧ Best c best s') (bestLocks best) s := by
  cases best with
  | none =>
    refine Discipline.wp_mono ?_ (wp_interrupts_none hs)
    rintro - Hs' s' ⟨rfl, hr⟩
    exact ⟨rfl, h.rely hr (Set.empty_subset _)⟩
  | some b => exact Discipline.wp_ret fun s' hr _ => ⟨rfl, h.rely hr subset_rfl⟩

/-- The scheduler goes on with slot `i` instead of the best process so far. -/
lemma wp_unlockBest {i : Fin NPROC}
    (hi : .proc i ∉ bestLocks best) (h : Best c best s)
    (hst : (s.slot i).state = .runnable) (hfree : ProcFree s i) (dp : Int32) :
    (disc H).wp (.sched c) (unlockBest best)
      (fun _ Hs' s' => Hs' = {.proc i} ∧ Best c (some (i, dp)) s')
      (insert (.proc i) (bestLocks best)) s := by
  have hnew : Best c (some (i, dp)) s := by
    refine ⟨h.cpu, ?_, ?_⟩
    · rintro b ⟨⟩
      exact hst
    · rintro b ⟨⟩
      exact hfree
  have hsub : bestLocks (some (i, dp)) ⊆ insert (.proc i) (bestLocks best) :=
    Set.singleton_subset_iff.mpr (.inl rfl)
  cases best with
  | none =>
    refine Discipline.wp_ret fun s₁ hr₁ _ => ⟨insert_empty_eq _, hnew.rely hr₁ hsub⟩
  | some b =>
    obtain ⟨b, dp'⟩ := b
    have hne : Lock.proc i ≠ .proc b := hi
    refine Discipline.wp_unlock (g := pure) (.inr rfl) (pair_sdiff_right hne) fun s₁ hr₁ _ =>
      ⟨hr₁.lockInv (.inr rfl) (h.free (b, dp') rfl), Discipline.wp_ret fun s₂ hr₂ _ => ⟨rfl, ?_⟩⟩
    exact (hnew.rely hr₁ hsub).rely hr₂ subset_rfl

lemma wp_scan {is : List (Fin NPROC)} (hs : Inv s)
    (h : Best c best s) (hsorted : is.Pairwise (· < ·)) (hbest : ∀ b ∈ best, ∀ i ∈ is, b.1 < i) :
    (disc H).wp (.sched c) (scan is best)
      (fun r Hs' s' => Hs' = bestLocks r ∧ Best c r s') (bestLocks best) s := by
  induction is generalizing s best with
  | nil => exact Discipline.wp_ret fun s' hr _ => ⟨rfl, h.rely hr subset_rfl⟩
  | cons i is ih =>
    obtain ⟨hlt, hsorted⟩ := List.pairwise_cons.mp hsorted
    have hi : .proc i ∉ bestLocks best := by
      rintro hmem
      obtain ⟨b, hb, hbi⟩ := mem_bestLocks.mp hmem
      exact absurd hbi (hbest b hb i List.mem_cons_self).ne
    have hbest' : ∀ b ∈ best, ∀ j ∈ is, b.1 < j :=
      fun b hb j hj => hbest b hb j (List.mem_cons_of_mem _ hj)
    refine Discipline.wp_bind hs (Discipline.wp_mono ?_ (wp_interruptsIdle hs h))
    rintro - Hs' s₁ ⟨rfl, h₁⟩ _
    refine Discipline.wp_lock ?_ hi fun s₂ hr₂ _ hfree₂ => ?_
    · -- the lock that the scheduler holds comes before the one it waits for
      rintro j j' ⟨⟩ hj
      obtain ⟨b, hb, rfl⟩ := mem_bestLocks.mp hj
      exact ⟨⟨c, rfl⟩, hbest b hb i List.mem_cons_self⟩
    refine wp_read fun s₃ hr₃ _ => ?_
    have h₃ := (h₁.rely hr₂ subset_rfl).rely hr₃ (Set.subset_insert _ _)
    have hfree₃ : ProcFree s₃ i := hr₃.lockInv (.inl rfl) hfree₂
    split_ifs with hst
    · refine Discipline.wp_unlock (.inl rfl) (Set.insert_sdiff_self_of_notMem hi) fun s₄ hr₄ hi₄ =>
        ⟨hr₄.lockInv (.inl rfl) hfree₃, ?_⟩
      exact ih hi₄ (h₃.rely hr₄ (Set.subset_insert _ _)) hsorted hbest'
    · refine wp_read fun s₄ hr₄ hi₄ => ?_
      have h₄ := h₃.rely hr₄ (Set.subset_insert _ _)
      have hfree₄ : ProcFree s₄ i := hr₄.lockInv (.inl rfl) hfree₃
      have hst₄ : (s₄.slot i).state = .runnable :=
        (frozen_of_rely hr₄ (.inl rfl)).state.trans (not_not.mp hst)
      split_ifs
      · refine Discipline.wp_bind hi₄ (Discipline.wp_mono ?_
          (wp_unlockBest hi h₄ hst₄ hfree₄ (s₃.slot i).dp))
        rintro - Hs' s₅ ⟨rfl, h₅⟩ hi₅
        refine ih hi₅ h₅ hsorted ?_
        rintro b ⟨⟩
        exact hlt
      · refine Discipline.wp_unlock (.inl rfl) (Set.insert_sdiff_self_of_notMem hi)
          fun s₅ hr₅ hi₅ => ⟨hr₅.lockInv (.inl rfl) hfree₄, ?_⟩
        exact ih hi₅ (h₄.rely hr₅ (Set.subset_insert _ _)) hsorted hbest'

lemma awaits_enter {b : Fin NPROC} (hs : Inv s) (hcpu : s.cpu c = some b) :
    awaits (s.setSlot b { s.slot b with hart := some c }) =
      Function.update (Function.update (awaits s) (.proc b) none) (.sched c) (some (.proc b)) := by
  funext t'
  cases t' with
  | proc q =>
    by_cases hq : q = b
    · simp [awaits, hq]
    · simp [awaits, hq]
  | sched c' =>
    by_cases hc' : c' = c
    · simp [awaits, hc', hcpu]
    · have hne : s.cpu c' ≠ some b := fun h => hc' (hs.cpu_inj c' c b h hcpu)
      simp only [awaits, setSlot_cpu, setSlot_slot, ne_eq, reduceCtorEq, not_false_eq_true,
        Function.update_of_ne, Thread.sched.injEq, hc']
      split
      · rename_i q hq
        have hqb : q ≠ b := fun h => hne (h ▸ hq)
        simp [hqb]
      · rfl

/-- Setting `c->proc` does not suspend a thread while no hart executes the process. -/
lemma awaits_setCpu {o : Option (Fin NPROC)} (hs : ∀ b, s.cpu c = some b → (s.slot b).hart = none)
    (ho : ∀ b ∈ o, (s.slot b).hart = none) :
    awaits { s with cpu := Function.update s.cpu c o } = awaits s := by
  funext t'
  cases t' with
  | proc q => rfl
  | sched c' =>
    by_cases hc' : c' = c
    · subst hc'
      cases o <;> cases hcpu : s.cpu c' <;> simp_all [awaits]
    · simp [awaits, hc']

lemma wp_dispatch {b : Fin NPROC} {dp : Int32} (h : Best c (some (b, dp)) s) :
    (disc H).wp (.sched c) (dispatch c b) (fun _ Hs' s' => Hs' = ∅ ∧ s'.cpu c = none)
      {.proc b} s := by
  refine Discipline.wp_update fun s₁ hr₁ hi₁ => ?_
  have h₁ := h.rely hr₁ subset_rfl
  have hst := h₁.runnable _ rfl
  have hfree := h₁.free _ rfl
  have hoff : OffCpu s₁ b := hfree.offCpu (by simp [hst])
  refine ⟨.slot b _ (.cpu c (some b)) (.dispatch c _ rfl rfl hst h₁.cpu hoff rfl rfl), ?_,
    fun _ => ?_⟩
  · exact (awaits_setCpu (by simp [h₁.cpu]) (by simp [hoff.1])).trans (awaits_setSlot s₁ rfl)
  refine Discipline.wp_swtch fun s₂ hr₂ hi₂ => ?_
  have hf₂ := frozen_of_rely hr₂ rfl
  have hcpu₂ : s₂.cpu c = some b := (cpu_of_rely hr₂).trans (by simp)
  have hrun₂ : (s₂.slot b).state = .running := hf₂.state.trans (by simp [Proc.dispatch])
  have hhart₂ : (s₂.slot b).hart = none := hf₂.hart.trans (by simpa using hoff.1)
  have hdrowsy₂ : (s₂.slot b).drowsy = none := hf₂.drowsy.trans (by simpa using hfree.drowsy)
  refine ⟨.proc b, rfl, .slot b _ .none (.enter c rfl rfl hcpu₂ hrun₂ hhart₂), ?_,
    awaits_enter hi₂ hcpu₂, ⟨rfl, ?_⟩, ?_⟩
  · simp [threads, awaits, hhart₂]
  · exact ⟨by simpa using hrun₂, by simp, by simpa using hdrowsy₂⟩
  rintro s₃ hr₃ hi₃ ⟨b', hb', hret⟩
  obtain rfl : b = b' := Lock.proc.inj hb'
  refine Discipline.wp_update fun s₄ hr₄ hi₄ => ?_
  have hf₄ := frozen_of_rely hr₄ rfl
  have hcpu₄ : s₄.cpu c = some b := (cpu_of_rely hr₄).trans hret.cpu
  have hhart₄ : (s₄.slot b).hart = none := hf₄.hart.trans hret.hart
  refine ⟨?_, awaits_setCpu ?_ (by simp), fun _ => ?_⟩
  · have hact : Act (.sched c)
      {.proc b} s₄ (Effect.apply (s₄.setSlot b (s₄.slot b)) (.cpu c none)) :=
      .slot b _ _ (.clear c rfl rfl hcpu₄ hhart₄)
    rwa [setSlot_self] at hact
  · rintro q hq
    rw [hcpu₄] at hq
    exact Option.some.inj hq ▸ hhart₄
  have hfree₅ : ProcFree { s₄ with cpu := Function.update s₄.cpu c none } b := by
    have hst₄ : (s₄.slot b).state ≠ .running := hf₄.state ▸ hret.not_running
    refine ⟨hf₄.drowsy.trans hret.drowsy, fun hst => absurd hst hst₄, fun _ => ⟨hhart₄, ?_⟩⟩
    intro c' hc'
    simp only [Function.update_apply] at hc'
    split_ifs at hc' with heq
    exact heq (hi₄.cpu_inj c' c b hc' hcpu₄)
  refine Discipline.wp_unlock (g := pure) rfl Set.sdiff_self fun s₆ hr₆ _ =>
    ⟨hr₆.lockInv rfl hfree₅, Discipline.wp_ret fun s₇ hr₇ _ => ⟨rfl, ?_⟩⟩
  exact (cpu_of_rely hr₇).trans ((cpu_of_rely hr₆).trans (by simp))

lemma wp_scheduler (hs : Inv s) (hcpu : s.cpu c = none) :
    (disc H).wp (.sched c) (scheduler c) (fun e _ _ => e.elim) ∅ s := by
  have hbest : Best c none s := ⟨hcpu, by simp, by simp⟩
  refine Discipline.wp_bind hs (Discipline.wp_mono ?_ (wp_scan hs hbest
    (List.pairwise_lt_finRange NPROC) fun _ hb => nomatch hb))
  rintro (_ | ⟨b, dp⟩) Hs' s₁ ⟨rfl, h₁⟩ hi₁
  · exact fun s₂ hr₂ _ => ⟨rfl, rfl, (cpu_of_rely hr₂).trans h₁.cpu⟩
  · refine Discipline.wp_bind hi₁ (Discipline.wp_mono ?_ (wp_dispatch h₁))
    rintro - Hs' s₂ ⟨rfl, hcpu₂⟩ _ s₃ hr₃ _
    exact ⟨rfl, rfl, (cpu_of_rely hr₃).trans hcpu₂⟩

/-! ### All interleavings -/

lemma codeOk : (disc H).CodeOk := by
  intro e t Hs s hs hpre
  cases e with
  | scheduler c =>
    obtain ⟨rfl, rfl, hcpu⟩ := hpre
    exact wp_scheduler hs hcpu
  | entry p =>
    obtain ⟨rfl, rfl, hres, hun⟩ := hpre
    exact wp_entry hres hun
  | user p =>
    obtain ⟨rfl, rfl, h⟩ := hpre
    exact wp_user hs h
  | waitLoop p =>
    obtain ⟨rfl, rfl, h, hfam⟩ := hpre
    exact wp_waitLoop hs h hfam
  | condLoop p k =>
    obtain ⟨rfl, rfl, h, hfree⟩ := hpre
    exact wp_condLoop h hfree

lemma good_boot (ticks : UInt32) : (disc H).Good (boot ticks) := by
  have hheld : ∀ t, heldBy (boot ticks : Conf (sig H)).owner t = ∅ := by
    intro t
    refine Set.eq_empty_of_forall_notMem fun l hl => ?_
    cases hl
  refine ⟨inv_boot ticks, fun l _ => ?_, fun t => ?_⟩
  · cases l with
    | proc i =>
      refine ⟨rfl, fun hst => ?_, fun _ => ⟨rfl, fun c => ?_⟩⟩
      · by_cases hi : i = 0 <;> simp [boot, hi, Proc.zero] at hst
      · simp [boot]
    | wait =>
      refine ⟨fun i hborn hi => ?_, fun i q hz => ?_⟩
      · have hi : i ≠ 0 := hi
        simp [boot, hi, Proc.zero, Slot.Born, Slot.Alive] at hborn
      · by_cases hi : i = 0 <;> simp [boot, hi, Proc.zero] at hz
    | obj k =>
      intro hk
      cases hk
    | pid | ticks => trivial
  · cases t with
    | sched c =>
      show (disc H).wp _ _ _ _ _
      rw [hheld]
      exact fun s hr _ => ⟨rfl, rfl, (cpu_of_rely hr).trans rfl⟩
    | proc p =>
      refine ⟨hheld _, fun s hr _ hres s' hr' _ => ?_⟩
      have hun : Unstarted p (boot ticks : Conf (sig H)).state := by
        refine ⟨?_, fun i => by simp [boot]⟩
        by_cases hp : p = 0
        · exact .inl (by simp [boot, hp])
        · exact .inr (by simp [boot, hp, Proc.zero, Slot.Alive])
      exact ⟨rfl, rfl, hres.2.rely hr' rfl, (hun.rely hr).rely hr'⟩

/-- The discipline holds in every state that the harts reach. -/
theorem good_of_reachable {c : Conf (sig H)} (h : (machine H).Reachable c) : (disc H).Good c :=
  Discipline.sound codeOk (by rintro c ⟨ticks, rfl⟩; exact good_boot ticks) h

end Xv6.Sched
