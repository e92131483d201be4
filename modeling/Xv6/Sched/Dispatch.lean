import Xv6.Sched.Sound

/-!
# Dispatch exclusivity

A process runs on at most one hart, a hart dispatches a process only while the process is `RUNNABLE`
and locked, and the harts never wait for each other in a circle. The checks of locks in `acquire`,
`release` and `sched` never fail.
-/

namespace Xv6.Sched

open Core Relation

variable {H : Type} [DecidableEq H]

/-- The thread that the hart executes. -/
def Executes (s : State H) (h : H) : Thread H → Prop
  | .sched h' => h' = h ∧ awaits s (.sched h) = none
  | .proc p => (s.slot p).hart = some h

/-- The hart is at an `acquire` of the lock of process `i`. -/
def Acquires (c : Conf (sig H)) (h : H) (i : Fin NPROC) : Prop :=
  ∃ t k, Executes c.state h t ∧ c.prog t = .acquire (.proc i) k

/-- The hart `h` spins on the lock of a process that is held on the hart `h'`. -/
def SpinsOn (c : Conf (sig H)) (h h' : H) : Prop :=
  ∃ i, Acquires c h i ∧ ∃ t, Executes c.state h' t ∧ c.owner (.proc i) = some t

/-- The exclusivity of dispatching, in a state of the machine. -/
structure Exclusive (c : Conf (sig H)) : Prop where
  /-- Each process is `c->proc` of at most one hart. -/
  cpu_inj : ∀ h h' i, c.state.cpu h = some i → c.state.cpu h' = some i → h = h'
  /-- A process whose lock is free is `RUNNING` if and only if it is `c->proc` of one hart. -/
  running_iff : ∀ i, c.owner (.proc i) = none →
    ((c.state.slot i).state = .running ↔ ∃! h, c.state.cpu h = some i)
  /-- The hart that sets its `c->proc` holds the lock of the process, which is `RUNNABLE`. -/
  cpu_set : ∀ e c' h i, (machine H).next c e = some c' → c'.state.cpu h = some i →
    c.state.cpu h ≠ some i →
      e.1 = .sched h ∧ (c.state.slot i).state = .runnable ∧ c.owner (.proc i) = some (.sched h)
  /-- A process becomes `RUNNING` only when a hart dispatches it. -/
  running_set : ∀ e c' i, (machine H).next c e = some c' → (c'.state.slot i).state = .running →
    (c.state.slot i).state ≠ .running → ∃ h, e.1 = .sched h ∧ c'.state.cpu h = some i ∧
      (c.state.slot i).state = .runnable ∧ c.owner (.proc i) = some (.sched h)
  /-- A scheduler that waits for the lock of a process holds only locks that come before it. -/
  sched_order : ∀ h i j k, awaits c.state (.sched h) = none →
    c.prog (.sched h) = .acquire (.proc j) k → c.owner (.proc i) = some (.sched h) → i < j
  /-- A process holds the lock of at most one process. -/
  proc_one : ∀ p i j, c.owner (.proc i) = some (.proc p) →
    c.owner (.proc j) = some (.proc p) → i = j
  /-- No circle of harts that spin on locks of processes. -/
  no_cycle : ∀ h, ¬ TransGen (SpinsOn c) h h

/-! ### One step -/

section

variable {t : Thread H} {Hs : Set Lock} {s s' : State H}

lemma Act.cpu_set (h : Act t Hs s s') {c : H} {i : Fin NPROC} (hc : s'.cpu c = some i)
    (hne : s.cpu c ≠ some i) :
    t = .sched c ∧ (s.slot i).state = .runnable ∧ .proc i ∈ Hs := by
  cases h with
  | slot j x e hact =>
    cases hact with
    | dispatch c' p' ht hl hst =>
      simp only [Effect.apply, setSlot_cpu, Function.update_apply] at hc
      split_ifs at hc with hcc
      · obtain rfl := Option.some.inj hc
        exact ⟨hcc ▸ ht, hst, hl⟩
      · exact absurd hc hne
    | clear c' ht hl =>
      simp only [Effect.apply, setSlot_cpu, Function.update_apply] at hc
      split_ifs at hc
      exact absurd hc hne
    | _ => exact absurd hc hne
  | _ => exact absurd hc hne

lemma Act.running_set (h : Act t Hs s s') {i : Fin NPROC} (hi : (s'.slot i).state = .running)
    (hne : (s.slot i).state ≠ .running) :
    ∃ c, t = .sched c ∧ s'.cpu c = some i ∧ (s.slot i).state = .runnable ∧ .proc i ∈ Hs := by
  cases h with
  | slot j x e hact =>
    have hij : i = j := by
      by_contra hij
      simp [hij, hne] at hi
    subst hij
    simp only [apply_slot, setSlot_slot, Function.update_self] at hi
    cases hact with
    | dispatch c' p' ht hl hst => exact ⟨c', ht, by simp [Effect.apply], hst, hl⟩
    | calm p' hl hcalm =>
      obtain hst | ⟨-, hst⟩ := hcalm.state
      · exact absurd (hst.symm.trans hi) hne
      · simp [hst] at hi
    | _ => simp_all
  | _ => exact absurd hi hne

end

/-! ### Waiting in a circle -/

section

variable {c : Conf (sig H)}

lemma Executes.awaits {a : H} {t : Thread H} (ht : Executes c.state a t) :
    awaits c.state t = none := by
  cases t with
  | sched a' =>
    obtain ⟨rfl, ht⟩ := ht
    exact ht
  | proc p =>
    have ht : (c.state.slot p).hart = some a := ht
    simp [Sched.awaits, ht]

variable (h : (disc H).Good c)
include h

/-- A hart executes one thread. -/
lemma Executes.unique {a : H} {t t' : Thread H} (ht : Executes c.state a t)
    (ht' : Executes c.state a t') : t = t' := by
  have hproc : ∀ p, Executes c.state a (.proc p) → c.state.cpu a = some p :=
    fun p hp => h.inv.cpu_of_hart p a hp
  have hsched : ∀ p a', Executes c.state a (.proc p) → ¬ Executes c.state a (.sched a') := by
    rintro p a' hp ⟨rfl, ha⟩
    have hp' : (c.state.slot p).hart = some a' := hp
    simp [Sched.awaits, hproc p hp, hp'] at ha
  cases t with
  | sched b =>
    cases t' with
    | sched b' => rw [ht.1, ht'.1]
    | proc q => exact absurd ht (hsched q b ht')
  | proc p =>
    cases t' with
    | sched b' => exact absurd ht' (hsched p b' ht)
    | proc q => rw [Option.some.inj ((hproc p ht).symm.trans (hproc q ht'))]

/-- The lock that a hart waits for comes before those that the holder waits for. -/
lemma SpinsOn.lt {a b : H} (hab : SpinsOn c a b) :
    ∃ i, Acquires c a i ∧ ∀ j, Acquires c b j → i < j := by
  obtain ⟨i, ha, t, ht, hown⟩ := hab
  refine ⟨i, ha, fun j hb => ?_⟩
  obtain ⟨t', k, ht', hprog⟩ := hb
  obtain rfl := ht.unique h ht'
  exact (h.order ht'.awaits hprog i j rfl hown).2

lemma not_transGen_spinsOn (a : H) : ¬ TransGen (SpinsOn c) a a := by
  -- along the waiting the locks go up
  have hpath : ∀ b, TransGen (SpinsOn c) a b →
      ∃ i, Acquires c a i ∧ ∀ j, Acquires c b j → i < j := by
    intro b hab
    induction hab with
    | single hab => exact hab.lt h
    | tail _ hbd ih =>
      obtain ⟨i, hi, hlt⟩ := ih
      obtain ⟨i', hi', hlt'⟩ := hbd.lt h
      exact ⟨i, hi, fun j hj => (hlt i' hi').trans (hlt' j hj)⟩
  intro haa
  obtain ⟨i, hi, hlt⟩ := hpath a haa
  exact lt_irrefl i (hlt i hi)

end

/-- A process holds the lock of at most one process. -/
def OneProcLock (c : Conf (sig H)) : Prop :=
  ∀ p i j, c.owner (.proc i) = some (.proc p) → c.owner (.proc j) = some (.proc p) → i = j

lemma oneProcLock_of_reachable {c : Conf (sig H)} (h : (machine H).Reachable c) :
    OneProcLock c := by
  refine h.invariant_of (fun _ => good_of_reachable) ?_ ?_
  · rintro c ⟨ticks, rfl⟩ p i j hi
    exact nomatch hi
  · intro c e c' hgood hone hnext p i j hi hj
    have hi : .proc i ∈ heldBy c'.owner (.proc p) := hi
    have hj : .proc j ∈ heldBy c'.owner (.proc p) := hj
    obtain hsub | ⟨l, heq, hord⟩ | ⟨l, heq⟩ := hgood.heldBy_cases hnext (.proc p)
    · exact hone p i j (hsub hi) (hsub hj)
    · rw [heq] at hi hj
      have hnone : ∀ k j', l = .proc j' → .proc k ∉ heldBy c.owner (.proc p) := by
        intro k j' hl hk
        obtain ⟨⟨a, ha⟩, -⟩ := hord k j' hl hk
        exact nomatch ha
      obtain rfl | hi := hi
      · obtain hj | hj := hj
        · exact (Lock.proc.inj hj).symm
        · exact absurd hj (hnone j i rfl)
      · obtain rfl | hj := hj
        · exact absurd hi (hnone i j rfl)
        · exact hone p i j hi hj
    · rw [heq] at hi hj
      exact Lock.proc.inj (hi.trans hj.symm)

/-! ### All states -/

/-- Dispatching is exclusive in every state that the harts reach. -/
theorem exclusive_of_reachable {c : Conf (sig H)} (h : (machine H).Reachable c) : Exclusive c := by
  have hgood := good_of_reachable h
  refine ⟨hgood.inv.cpu_inj, fun i hi => ?_, fun e c' a i hnext hc hne => ?_,
    fun e c' i hnext hi hne => ?_, fun a i j k ha hprog hown => ?_, oneProcLock_of_reachable h,
    not_transGen_spinsOn hgood⟩
  · have hfree : ProcFree c.state i := hgood.lockInv _ hi
    constructor
    · intro hrun
      obtain ⟨a, ha⟩ := Option.ne_none_iff_exists'.mp (hfree.running hrun)
      have hcpu := hgood.inv.cpu_of_hart i a ha
      exact ⟨a, hcpu, fun a' ha' => hgood.inv.cpu_inj a' a i ha' hcpu⟩
    · rintro ⟨a, ha, -⟩
      by_contra hrun
      exact (hfree.offCpu hrun).2 a ha
  · obtain hsame | hact := hgood.guar hnext
    · exact absurd (hsame ▸ hc) hne
    · obtain ⟨ht, hst, hl⟩ := Act.cpu_set hact hc hne
      exact ⟨ht, hst, ht ▸ hl⟩
  · obtain hsame | hact := hgood.guar hnext
    · exact absurd (hsame ▸ hi) hne
    · obtain ⟨a, ht, hcpu, hst, hl⟩ := Act.running_set hact hi hne
      exact ⟨a, ht, hcpu, hst, ht ▸ hl⟩
  · exact (hgood.order (S := sig H) (t := .sched a) ha hprog i j rfl hown).2

/-- Init has just been dispatched on the only hart. -/
def dispatched : Conf (sig Unit) :=
  ((machine Unit).exec (boot 0) (List.replicate 196 (.sched (), .intr []))).get (by decide +kernel)

theorem exclusive_dispatched : dispatched.state.cpu () = some 0 ∧ Exclusive dispatched :=
  ⟨by decide +kernel, exclusive_of_reachable (.of_exec ⟨0, rfl⟩ (Option.some_get _).symm)⟩

/-! ### Locks -/

/-- Every lock is held by a thread that a hart executes. A hart does not acquire a lock that it
holds or release one that it does not hold; when it switches threads it holds the lock that it hands
over and no other; and nothing panics but init when it exits. -/
theorem locks_of_reachable {c : Conf (sig H)} (h : (machine H).Reachable c) :
    (∀ l t, c.owner l = some t → ∃ a, Executes c.state a t) ∧
    ∀ a t, Executes c.state a t →
      (∀ l k, c.prog t = .acquire l k → ∀ t', Executes c.state a t' → c.owner l ≠ some t') ∧
      (∀ l k, c.prog t = .release l k → c.owner l = some t) ∧
      (∀ l target f k, c.prog t = .swtch l target f k → ∀ l', c.owner l' = some t ↔ l' = l) ∧
      ∀ m, c.prog t = .panic m → m = .initExiting := by
  have hgood := good_of_reachable h
  refine ⟨fun l t hl => ?_, fun a t ht => ?_⟩
  · have hawaits : awaits c.state t = none := by
      by_contra hne
      obtain ⟨l', hl'⟩ := Option.ne_none_iff_exists'.mp hne
      exact (hgood.heldBy_eq_empty hl').subset hl
    cases t with
    | sched a => exact ⟨a, rfl, hawaits⟩
    | proc p => exact Option.ne_none_iff_exists'.mp fun hp => by simp [awaits, hp] at hawaits
  · have hwp := hgood.wp ht.awaits
    refine ⟨fun l k hp t' ht' => ?_, fun l k hp => ?_, fun l target f k hp l' => ?_, fun m hp => ?_⟩
    · rw [hp] at hwp
      obtain rfl := ht.unique hgood ht'
      exact (hwp c.state .refl hgood.inv).2.1
    · rw [hp] at hwp
      exact (hwp c.state .refl hgood.inv).1
    · rw [hp] at hwp
      rw [← mem_heldBy, (hwp c.state .refl hgood.inv).1, Set.mem_singleton_iff]
    · rw [hp] at hwp
      exact hwp

theorem locks_dispatched : dispatched.owner (.proc 0) = some (.proc 0) ∧
    ∃ a, Executes dispatched.state a (.proc 0) := by
  have hown : dispatched.owner (.proc 0) = some (.proc 0) := by decide +kernel
  have hreach : (machine Unit).Reachable dispatched := .of_exec ⟨0, rfl⟩ (Option.some_get _).symm
  exact ⟨hown, (locks_of_reachable hreach).1 _ _ hown⟩

end Xv6.Sched
