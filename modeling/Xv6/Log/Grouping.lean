import Xv6.Log.GroupInvariant

/-!
# Operations are grouped into commits

All blocks that one operation logs go into one commit, which happens after the end of that
operation. Together with the invariants of the header this gives the contract of `begin_op`,
`log_write` and `end_op`.
-/

namespace Xv6.Log

open Core

/-- The entries that `commit` has yet to commit when it is about to do `c`. -/
def Logheader.uncommitted (lh : Logheader) : CommitPc → List ℕ
  | .test | .writeLog _ | .writeHead => lh.entries
  | .installTrans _ | .clear | .eraseHead | .finish => []

namespace Group

variable {P : Type}

/-! ### The history -/

/-- The blocks logged since the last commit. -/
def recentBlocks : List (Record P) → Finset ℕ
  | [] => ∅
  | .logged _ _ b :: h => insert b (recentBlocks h)
  | .ended _ _ :: h => recentBlocks h
  | .committed _ :: _ => ∅

/-- A history in which no operation logs after its end, and each commit finds all operations
before it ended and takes all blocks since the previous one. -/
def WellGrouped : List (Record P) → Prop
  | [] => True
  | .logged p k _ :: h => .ended p k ∉ h ∧ WellGrouped h
  | .ended _ _ :: h => WellGrouped h
  | .committed bs :: h =>
    (∀ p k b, .logged p k b ∈ h → .ended p k ∈ h) ∧ (∀ b ∈ recentBlocks h, b ∈ bs) ∧ WellGrouped h

lemma WellGrouped.of_append {h₁ h₂ : List (Record P)} (h : WellGrouped (h₁ ++ h₂)) :
    WellGrouped h₂ := by
  induction h₁ with
  | nil => exact h
  | cons r h₁ ih =>
    cases r with
    | logged p k b => exact ih h.2
    | ended p k => exact ih h
    | committed bs => exact ih h.2.2

variable {a h : List (Record P)}

lemma mem_recentBlocks_append {p : P} {k b : ℕ} (ha : ∀ bs, .committed bs ∉ a) :
    b ∈ recentBlocks (a ++ .logged p k b :: h) := by
  induction a with
  | nil => exact Finset.mem_insert_self b _
  | cons r a ih =>
    have ih' := ih fun bs hbs => ha bs (List.mem_cons_of_mem r hbs)
    cases r with
    | logged p k b => exact Finset.mem_insert_of_mem ih'
    | ended p k => exact ih'
    | committed bs => exact absurd List.mem_cons_self (ha bs)

/-- A block goes into the first commit after it was logged, and the operation has ended by then. -/
lemma WellGrouped.commit {c : List (Record P)} {bs : List ℕ} {p : P} {k b : ℕ}
    (hw : WellGrouped (c ++ .committed bs :: (a ++ .logged p k b :: h)))
    (ha : ∀ bs', .committed bs' ∉ a) : .ended p k ∈ a ∧ b ∈ bs := by
  obtain ⟨hended, htake, hrest⟩ := hw.of_append
  have hnot : .ended p k ∉ h := hrest.of_append.1
  have hmem := hended p k b (by simp)
  simp only [List.mem_append, List.mem_cons, reduceCtorEq, false_or] at hmem
  exact ⟨hmem.resolve_right hnot, htake b (mem_recentBlocks_append ha)⟩

/-- There is no commit between two writes of one operation. -/
lemma WellGrouped.same_commit {c : List (Record P)} {p : P} {k b b' : ℕ}
    (hw : WellGrouped (c ++ .logged p k b' :: (a ++ .logged p k b :: h))) (bs : List ℕ) :
    .committed bs ∉ a := by
  intro hbs
  obtain ⟨a₁, a₂, rfl⟩ := List.append_of_mem hbs
  obtain ⟨hnot, hrest⟩ := hw.of_append
  rw [List.append_assoc, List.cons_append] at hrest hnot
  have hended := hrest.of_append.1 p k b (by simp)
  exact hnot (List.mem_append_right _ (List.mem_cons_of_mem _ hended))

/-! ### The history along a run -/

/-- What the history `hist` has to do with the operations that are running. -/
structure Records (hist : List (Record P)) (pc : P → Pc) (opno : P → ℕ) : Prop where
  grouped : WellGrouped hist
  logged : ∀ p k b, .logged p k b ∈ hist → .ended p k ∈ hist ∨ pc p = .inOp ∧ opno p = k
  ended : ∀ p k, .ended p k ∈ hist → k < opno p ∨ k = opno p ∧ pc p ≠ .inOp

namespace Records

variable {hist : List (Record P)} {pc : P → Pc} {opno : P → ℕ} {p : P}

lemma congr (h : Records hist pc opno) {pc' : P → Pc} (hpc : ∀ q, pc' q = .inOp ↔ pc q = .inOp) :
    Records hist pc' opno := by
  refine ⟨h.grouped, fun q k b hq => ?_, fun q k hq => ?_⟩
  · rw [hpc]
    exact h.logged q k b hq
  · rw [ne_eq, hpc]
    exact h.ended q k hq

lemma ended_notMem (h : Records hist pc opno) (hp : pc p = .inOp) : .ended p (opno p) ∉ hist := by
  intro hmem
  rcases h.ended p _ hmem with hlt | ⟨-, hne⟩
  · exact lt_irrefl _ hlt
  · exact hne hp

lemma log (h : Records hist pc opno) (hp : pc p = .inOp) (b : ℕ) :
    Records (.logged p (opno p) b :: hist) pc opno := by
  refine ⟨⟨h.ended_notMem hp, h.grouped⟩, fun q k b' hq => ?_, fun q k hq => ?_⟩
  · rcases List.mem_cons.mp hq with heq | hq
    · cases heq
      exact .inr ⟨hp, rfl⟩
    · exact (h.logged q k b' hq).imp_left (List.mem_cons_of_mem _)
  · refine h.ended q k ?_
    simpa using hq

/-- A commit while no operation is running. -/
lemma commit (h : Records hist pc opno) (hnone : ∀ q, pc q ≠ .inOp) {bs : List ℕ}
    (hbs : ∀ b ∈ recentBlocks hist, b ∈ bs) : Records (.committed bs :: hist) pc opno := by
  have hended : ∀ q k b, .logged q k b ∈ hist → .ended q k ∈ hist :=
    fun q k b hq => (h.logged q k b hq).resolve_right fun hin => hnone q hin.1
  refine ⟨⟨hended, hbs, h.grouped⟩, fun q k b hq => .inl ?_, fun q k hq => ?_⟩
  · refine List.mem_cons_of_mem _ (hended q k b ?_)
    simpa using hq
  · refine h.ended q k ?_
    simpa using hq

variable [DecidableEq P]

lemma enterOp (h : Records hist pc opno) (hp : pc p ≠ .inOp) :
    Records hist (Function.update pc p .inOp) (Function.update opno p (opno p + 1)) := by
  refine ⟨h.grouped, fun q k b hq => ?_, fun q k hq => ?_⟩
  · by_cases hqp : q = p
    · -- what `p` logged before belongs to operations that ended
      subst hqp
      exact .inl ((h.logged q k b hq).resolve_right fun hin => hp hin.1)
    · rw [Function.update_of_ne hqp, Function.update_of_ne hqp]
      exact h.logged q k b hq
  · by_cases hqp : q = p
    · subst hqp
      rw [Function.update_self]
      rcases h.ended q k hq with hlt | ⟨heq, -⟩
      · exact .inl (by omega)
      · exact .inl (by omega)
    · rw [Function.update_of_ne hqp, Function.update_of_ne hqp]
      exact h.ended q k hq

lemma finishOp (h : Records hist pc opno) {c : Pc} (hc : c ≠ .inOp) :
    Records (.ended p (opno p) :: hist) (Function.update pc p c) opno := by
  refine ⟨h.grouped, fun q k b hq => ?_, fun q k hq => ?_⟩
  · have hq' : .logged q k b ∈ hist := by simpa using hq
    rcases h.logged q k b hq' with hend | ⟨hin, hk⟩
    · exact .inl (List.mem_cons_of_mem _ hend)
    · by_cases hqp : q = p
      · subst hqp
        rw [hk]
        exact .inl List.mem_cons_self
      · rw [Function.update_of_ne hqp]
        exact .inr ⟨hin, hk⟩
  · by_cases hqp : q = p
    · subst hqp
      rw [Function.update_self]
      rcases List.mem_cons.mp hq with heq | hq
      · cases heq
        exact .inr ⟨rfl, hc⟩
      · exact (h.ended q k hq).imp_right fun hin => ⟨hin.1, hc⟩
    · rw [Function.update_of_ne hqp]
      refine h.ended q k ?_
      simpa [hqp] using hq

end Records

/-- Nothing that was logged since the last commit is missing from the header. -/
structure Recent (s : Group P) : Prop where
  idle : s.committing = false → recentBlocks s.hist = s.lh.entries.toFinset
  commit : ∀ p c, s.pc p = .committing c → recentBlocks s.hist = (s.lh.uncommitted c).toFinset

namespace Recent

variable {s : Group P}

lemma of_committing (hc : Control s.pc s.outstanding s.committing) {p : P} {c : CommitPc}
    (hp : s.pc p = .committing c) (h : recentBlocks s.hist = (s.lh.uncommitted c).toFinset) :
    Recent s := by
  refine ⟨fun hf => absurd (hf.symm.trans (hc.flag p c hp)) (by simp), fun q k hq => ?_⟩
  obtain rfl := hc.unique q p k c hq hp
  obtain rfl : k = c := by simpa [hp] using hq.symm
  exact h

lemma of_not_committing (hc : Control s.pc s.outstanding s.committing) (hf : s.committing = false)
    (h : recentBlocks s.hist = s.lh.entries.toFinset) : Recent s :=
  ⟨fun _ => h, fun p c hp => absurd (hf.symm.trans (hc.flag p c hp)) (by simp)⟩

end Recent

/-- All invariants of the concurrent log. -/
structure Inv (s : Group P) : Prop where
  control : Control s.pc s.outstanding s.committing
  header : Header s
  sleeper : NoLostSleeper s
  records : Records s.hist s.pc s.opno
  recent : Recent s

lemma Inv.init : Inv (init : Group P) where
  control := ⟨⟨∅, by simp [Group.init], rfl⟩, by simp [Group.init], by simp [Group.init],
    by simp [Group.init]⟩
  header := ⟨le_rfl, List.nodup_nil, fun _ _ => rfl, fun _ _ => rfl, by simp [Group.init]⟩
  sleeper := by simp [NoLostSleeper, Group.init]
  records := ⟨trivial, by simp [Group.init], by simp [Group.init]⟩
  recent := ⟨fun _ => rfl, by simp [Group.init]⟩

section

variable [DecidableEq P] {size : ℤ} {s s' : Group P}

lemma Recent.setPc (h : Recent s) (p : P) {c : Pc} (hc : ∀ k, c ≠ .committing k) :
    Recent (s.setPc p c) := by
  refine ⟨h.idle, fun q k hq => h.commit q k ?_⟩
  rw [setPc_pc] at hq
  split_ifs at hq with hqp
  · exact absurd hq (hc k)
  · exact hq

lemma Step.recent (hstep : Step size s s') (hc : Control s.pc s.outstanding s.committing)
    (hh : Header s) (h : Recent s) : Recent s' := by
  have hc' := hstep.control hc
  cases hstep with
  | retry p _ => exact h.setPc p (by simp)
  | enterOp p hp hadm => exact .of_not_committing hc' hadm.1 (h.idle hadm.1)
  | block p _ _ => exact h.setPc p (by simp)
  | absorb p b hp hb =>
    have hf := hc.committing_eq_false hp
    refine .of_not_committing hc' hf ?_
    simp only [Group.recentBlocks, h.idle hf, Finset.insert_eq_of_mem (List.mem_toFinset.mpr hb)]
  | append p b hp hb _ _ =>
    have hf := hc.committing_eq_false hp
    refine .of_not_committing hc' hf ?_
    rw [Logheader.entries_add_of_notMem hh.n_nonneg hb]
    simp only [Group.recentBlocks, h.idle hf]
    ext x
    simp
  | leave p _ hf _ => exact .of_not_committing hc' hf (h.idle hf)
  | last p _ hf _ => exact .of_committing hc' (Function.update_self ..) (h.idle hf)
  | commit p c hp =>
    have hrec := h.commit p c hp
    cases c with
    | test =>
      refine .of_committing hc' (Function.update_self ..) ?_
      split_ifs with hpos
      · exact hrec
      · have hzero : s.lh.n = 0 := le_antisymm (not_lt.mp hpos) hh.n_nonneg
        rw [Logheader.uncommitted, Logheader.entries_of_n_eq_zero hzero] at hrec
        exact hrec
    | writeLog tail =>
      refine .of_committing hc' (Function.update_self ..) ?_
      split_ifs
      · exact hrec
      · exact hrec
    | writeHead => exact .of_committing hc' (Function.update_self ..) rfl
    | installTrans tail =>
      simp only [Group.commit] at hc' ⊢
      split_ifs at hc' ⊢
      · exact .of_committing hc' (Function.update_self ..) hrec
      · exact .of_committing hc' (Function.update_self ..) hrec
    | clear => exact .of_committing hc' (Function.update_self ..) hrec
    | eraseHead => exact .of_committing hc' (Function.update_self ..) hrec
    | finish =>
      have hnil : (s.commit p .finish).lh.entries = [] :=
        Logheader.entries_of_n_eq_zero ((hh.held p _ hp).2 trivial)
      refine .of_not_committing hc' rfl ?_
      rw [hnil]
      exact hrec

lemma Step.records (hstep : Step size s s') (hc : Control s.pc s.outstanding s.committing)
    (hr : Recent s) (h : Records s.hist s.pc s.opno) : Records s'.hist s'.pc s'.opno := by
  -- a move outside of the operations
  have hmove : ∀ p c, s.pc p ≠ .inOp → c ≠ .inOp →
      Records s.hist (Function.update s.pc p c) s.opno := by
    intro p c hp hne
    refine h.congr fun q => ?_
    by_cases hqp : q = p
    · subst hqp
      simp [hp, hne]
    · rw [Function.update_of_ne hqp]
  have hwake : Records s.hist s.wakeup.pc s.opno :=
    h.congr fun q => wakeup_pc_eq_iff s q (by simp) (by simp)
  cases hstep with
  | retry p hp => exact hmove p _ (by rcases hp with hp | hp <;> simp [hp]) (by simp)
  | enterOp p hp _ => exact h.enterOp (by simp [hp])
  | block p hp _ => exact hmove p _ (by simp [hp]) (by simp)
  | absorb p b hp _ => exact h.log hp b
  | append p b hp _ _ _ => exact h.log hp b
  | leave p hp _ _ => exact hwake.finishOp (by simp)
  | last p hp _ _ => exact h.finishOp (by simp)
  | commit p c hp =>
    have hcommit : ∀ k, Records s.hist (Function.update s.pc p (.committing k)) s.opno :=
      fun k => hmove p _ (by simp [hp]) (by simp)
    cases c with
    | writeHead =>
      refine (hcommit _).commit (fun q hq => ?_) fun b hb => ?_
      · by_cases hqp : q = p
        · subst hqp
          simp at hq
        · rw [Function.update_of_ne hqp] at hq
          exact absurd (hc.flag p _ hp) (by simp [hc.committing_eq_false hq])
      · rw [hr.commit p _ hp] at hb
        exact List.mem_toFinset.mp hb
    | installTrans tail =>
      simp only [Group.commit]
      split_ifs
      · exact hcommit _
      · exact hcommit _
    | finish =>
      refine hwake.congr fun q => ?_
      by_cases hqp : q = p
      · subst hqp
        rw [wakeup_pc_eq_iff s q (by simp) (by simp), hp]
        simp [Group.commit, setPc]
      · simp [Group.commit, setPc, Function.update_of_ne hqp]
    | _ => exact hcommit _

/-! ### The contract -/

lemma Inv.of_step (h : Inv s) {e : Call P} (hstep : step size s e = some (.ok s')) : Inv s' := by
  have hs := Step.of_step h.header.n_nonneg hstep
  exact ⟨hs.control h.control, hs.header h.control h.header,
    hs.noLostSleeper h.control h.header.n_nonneg h.sleeper,
    hs.records h.control h.recent h.records, hs.recent h.control h.header h.recent⟩

lemma Inv.of_reachable (h : (machine P size).Reachable s) : Inv s := by
  refine h.invariant (fun s hs => ?_) fun s e s' hi hn => ?_
  · rw [show s = Group.init from hs]
    exact .init
  · exact hi.of_step (Machine.ofStep_next.mp hn)

/-- The panics of `end_op` and of `log_write` outside of an operation do not happen. -/
lemma Inv.no_panic (h : Inv s) (e : Call P) :
    step size s e ≠ some (.error .committing) ∧ step size s e ≠ some (.error .outsideTrans) := by
  cases e with
  | logWrite p b =>
    by_cases hp : s.pc p = .inOp
    · have hout : ¬ s.outstanding < 1 := not_lt.mpr (h.control.outstanding_pos hp)
      simp only [step, if_pos hp, Group.logWrite, if_neg hout]
      split_ifs <;> simp
    · simp [step, hp]
  | endOp p =>
    by_cases hp : s.pc p = .inOp
    · have hf := h.control.committing_eq_false hp
      simp only [step, if_pos hp, Group.endOp, hf]
      split_ifs <;> simp_all
    · simp [step, hp]
  | commit p =>
    simp only [step]
    split <;> simp
  | enter p | beginOp p | kill p =>
    simp only [step]
    split_ifs <;> simp

/-- What the comment at the head of `log.c` promises of concurrent operations. -/
structure Contract (size : ℤ) (s : Group P) : Prop where
  /-- A commit runs only while no operation does. -/
  quiet : s.committing = true → s.outstanding = 0
  /-- The panics of `end_op` and of `log_write` outside of an operation are out of reach. -/
  no_panic : ∀ e, step size s e ≠ some (.error .committing) ∧
    step size s e ≠ some (.error .outsideTrans)
  /-- There is no `log_write` while a commit is running. -/
  no_write : ∀ p b, step size s (.logWrite p b) ≠ none →
    s.committing = false ∧ ∀ q c, s.pc q ≠ .committing c
  /-- A block is part of the first commit after it was logged, which is after the `end_op` of its
  operation. -/
  commit : ∀ a c h bs p k b, s.hist = c ++ .committed bs :: (a ++ .logged p k b :: h) →
    (∀ bs', .committed bs' ∉ a) → .ended p k ∈ a ∧ b ∈ bs
  /-- No commit comes between two blocks of one operation. -/
  same_commit : ∀ a c h p k b b', s.hist = c ++ .logged p k b' :: (a ++ .logged p k b :: h) →
    ∀ bs, .committed bs ∉ a
  /-- The entries of the header are distinct. -/
  nodup : s.lh.entries.Nodup
  /-- The log holds exactly one pin on each of them and none on other buffers. -/
  pins : s.committing = false → ∀ b, s.pinned b = if b ∈ s.lh.entries then 1 else 0
  /-- An idle log is empty. -/
  empty : s.outstanding = 0 → s.committing = false → s.lh.n = 0
  /-- Nobody sleeps who would be admitted. -/
  sleeper : ∀ p, s.pc p = .asleep → ¬ s.Admits

/-- For any number of processes and any interleaving of `begin_op`, `log_write`, `end_op` and the
steps of `commit`. -/
theorem contract_of_reachable (hs : (machine P size).Reachable s) : Contract size s := by
  have h := Inv.of_reachable hs
  refine ⟨h.control.quiet, h.no_panic, fun p b hstep => ?_, fun a c hist bs p k b heq ha => ?_,
    fun a c hist p k b b' heq bs => ?_, h.header.nodup, h.header.pins, h.header.empty, h.sleeper⟩
  · have hp : s.pc p = .inOp := by
      by_contra hp
      exact hstep (if_neg hp)
    have hf := h.control.committing_eq_false hp
    exact ⟨hf, fun q c hq => absurd (hf.symm.trans (h.control.flag q c hq)) (by simp)⟩
  · exact (heq ▸ h.records.grouped).commit ha
  · exact (heq ▸ h.records.grouped).same_commit bs

/-- One process logs a block and commits it while another, which found the log committing, sleeps
and is woken up. -/
def sampleState : Group (Fin 2) :=
  ((machine (Fin 2) LOGSIZE).exec init [.enter 0, .beginOp 0, .logWrite 0 50, .logWrite 0 50,
    .endOp 0, .commit 0, .enter 1, .beginOp 1, .commit 0, .commit 0, .commit 0, .commit 0,
    .commit 0, .commit 0, .commit 0, .commit 0, .beginOp 1]).get (by decide)

theorem contract_of_reachable_sample :
    sampleState.hist = [.committed [50], .ended 0 1, .logged 0 1 50, .logged 0 1 50] ∧
      sampleState.pc 1 = .inOp ∧ Contract LOGSIZE sampleState :=
  ⟨by decide, by decide, contract_of_reachable (.of_exec rfl (Option.some_get _).symm)⟩

end

end Group

end Xv6.Log
