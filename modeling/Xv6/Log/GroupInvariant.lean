import Xv6.Log.Group

/-!
# Invariants of the concurrent log

`Step` says once what a call that does not panic does; each
invariant is then shown to survive every step.
-/

namespace Xv6.Log

open Core

/-- The pins that `commit` still holds when it is about to do `c`. -/
def Logheader.held (lh : Logheader) : CommitPc → List ℕ
  | .test | .writeLog _ | .writeHead => lh.entries
  | .installTrans tail => lh.entries.drop tail
  | .clear | .eraseHead | .finish => []

/-- `log.lh.n = 0` has been done. -/
def CommitPc.Erased : CommitPc → Prop
  | .eraseHead | .finish => True
  | _ => False

namespace Group

variable {P : Type} {s : Group P}

/-! ### Program counters -/

lemma wakeup_pc_ne_asleep (s : Group P) (q : P) : s.wakeup.pc q ≠ .asleep := by
  simp only [wakeup]
  split_ifs with h
  · decide
  · exact h

variable {c : Pc}

/-- A wakeup moves only processes that sleep in `begin_op`. -/
lemma wakeup_pc_eq_iff (s : Group P) (q : P) (h1 : c ≠ .asleep) (h2 : c ≠ .entering) :
    s.wakeup.pc q = c ↔ s.pc q = c := by
  simp only [wakeup]
  split_ifs with h
  · rw [h]
    exact ⟨fun h' => absurd h'.symm h2, fun h' => absurd h'.symm h1⟩
  · rfl

/-! ### The invariants -/

/-- `log.outstanding` counts the operations between `begin_op` and `end_op`, and `log.committing`
is set by one process at a time, when there are none. -/
structure Control (pc : P → Pc) (outstanding : ℤ) (committing : Bool) : Prop where
  ops : ∃ F : Finset P, (∀ p, p ∈ F ↔ pc p = .inOp) ∧ outstanding = F.card
  quiet : committing = true → outstanding = 0
  flag : ∀ p c, pc p = .committing c → committing = true
  unique : ∀ p q c c', pc p = .committing c → pc q = .committing c' → p = q

namespace Control

variable {pc : P → Pc} {n : ℤ} {f : Bool} {p : P}

/-- No operation is running while the flag is set. -/
lemma committing_eq_false (h : Control pc n f) (hp : pc p = .inOp) : f = false := by
  obtain ⟨F, hF, hn⟩ := h.ops
  by_contra hf
  have h0 := h.quiet (by simpa using hf)
  have hpos : 0 < F.card := Finset.card_pos.mpr ⟨p, (hF p).mpr hp⟩
  omega

lemma outstanding_pos (h : Control pc n f) (hp : pc p = .inOp) : 1 ≤ n := by
  obtain ⟨F, hF, hn⟩ := h.ops
  have hpos : 0 < F.card := Finset.card_pos.mpr ⟨p, (hF p).mpr hp⟩
  omega

lemma wakeup (h : Control s.pc n f) : Control s.wakeup.pc n f := by
  have hcomm : ∀ q k, s.wakeup.pc q = .committing k ↔ s.pc q = .committing k :=
    fun q k => wakeup_pc_eq_iff s q (by simp) (by simp)
  refine ⟨?_, h.quiet, fun q k hq => h.flag q k ((hcomm q k).mp hq), fun q r k k' hq hr =>
    h.unique q r k k' ((hcomm q k).mp hq) ((hcomm r k').mp hr)⟩
  obtain ⟨F, hF, hn⟩ := h.ops
  refine ⟨F, fun q => ?_, hn⟩
  rw [hF, wakeup_pc_eq_iff s q (by simp) (by simp)]

end Control

/-- The log holds one pin on each block of `l` and on no other. -/
def Pins (pinned : ℕ → ℤ) (l : List ℕ) : Prop := ∀ b, pinned b = if b ∈ l then 1 else 0

lemma Pins.update_append {pinned : ℕ → ℤ} {l : List ℕ} (h : Pins pinned l) {b : ℕ} (hb : b ∉ l) :
    Pins (Function.update pinned b (pinned b + 1)) (l ++ [b]) := by
  intro b'
  rw [Function.update_apply]
  split_ifs with h1 h2 h2
  · rw [h b, if_neg hb, zero_add]
  · simp [h1] at h2
  · rw [h b', if_pos]
    simpa [h1] using h2
  · rw [h b', if_neg]
    exact fun hmem => h2 (List.mem_append_left _ hmem)

lemma Pins.update_drop {pinned : ℕ → ℤ} {l : List ℕ} (hnd : l.Nodup) {i : ℕ} (hi : i < l.length)
    (h : Pins pinned (l.drop i)) :
    Pins (Function.update pinned l[i] (pinned l[i] - 1)) (l.drop (i + 1)) := by
  have hcons : l.drop i = l[i] :: l.drop (i + 1) := List.drop_eq_getElem_cons hi
  have hnotin : l[i] ∉ l.drop (i + 1) := by
    have := hnd.sublist (List.drop_sublist i l)
    rw [hcons] at this
    exact (List.nodup_cons.mp this).1
  intro b
  rw [hcons] at h
  by_cases hb : b = l[i]
  · rw [hb, Function.update_self, h l[i], if_pos List.mem_cons_self, if_neg hnotin, sub_self]
  · rw [Function.update_of_ne hb, h b]
    simp only [List.mem_cons, or_iff_right hb]

/-- The entries of the header are distinct and pinned once each, until `commit` releases them; the
header is empty when nothing is going on. -/
structure Header (s : Group P) : Prop where
  n_nonneg : 0 ≤ s.lh.n
  nodup : s.lh.entries.Nodup
  empty : s.outstanding = 0 → s.committing = false → s.lh.n = 0
  pins : s.committing = false → Pins s.pinned s.lh.entries
  held : ∀ p c, s.pc p = .committing c → Pins s.pinned (s.lh.held c) ∧ (c.Erased → s.lh.n = 0)

namespace Header

/-- While `p` commits, only what it still holds matters. -/
lemma of_committing (hc : Control s.pc s.outstanding s.committing) {p : P} {c : CommitPc}
    (hp : s.pc p = .committing c) (h0 : 0 ≤ s.lh.n) (hnd : s.lh.entries.Nodup)
    (hheld : Pins s.pinned (s.lh.held c)) (hn : c.Erased → s.lh.n = 0) : Header s := by
  have hf := hc.flag p c hp
  refine ⟨h0, hnd, fun _ h => absurd (hf.symm.trans h) (by simp),
    fun h => absurd (hf.symm.trans h) (by simp), fun q k hq => ?_⟩
  obtain rfl := hc.unique q p k c hq hp
  obtain rfl : k = c := by simpa [hp] using hq.symm
  exact ⟨hheld, hn⟩

lemma of_not_committing (hc : Control s.pc s.outstanding s.committing) (hf : s.committing = false)
    (h0 : 0 ≤ s.lh.n) (hnd : s.lh.entries.Nodup) (hempty : s.outstanding = 0 → s.lh.n = 0)
    (hpins : Pins s.pinned s.lh.entries) : Header s := by
  refine ⟨h0, hnd, fun h _ => hempty h, fun _ => hpins, fun q k hq => ?_⟩
  exact absurd (hf.symm.trans (hc.flag q k hq)) (by simp)

end Header

/-- Whoever sleeps on `&log` would not be admitted. -/
def NoLostSleeper (s : Group P) : Prop := ∀ p, s.pc p = .asleep → ¬ s.Admits

lemma NoLostSleeper.of_committing (hf : s.committing = true) : NoLostSleeper s :=
  fun _ _ hadm => absurd (hf.symm.trans hadm.1) (by simp)

/-! ### What a step can do -/

variable [DecidableEq P] {size : ℤ} {s' : Group P}

lemma setPc_pc (s : Group P) (p q : P) (c : Pc) :
    (s.setPc p c).pc q = if q = p then c else s.pc q :=
  Function.update_apply ..

/-- The steps that do not panic, with `log_write` split into absorption and a new entry. -/
inductive Step (size : ℤ) (s : Group P) : Group P → Prop
  | retry (p : P) : s.pc p = .outside ∨ s.pc p = .asleep → Step size s (s.setPc p .entering)
  | enterOp (p : P) : s.pc p = .entering → s.Admits →
      Step size s { s.setPc p .inOp with
        outstanding := s.outstanding + 1
        opno := Function.update s.opno p (s.opno p + 1)
        writes := Function.update s.writes p ∅ }
  | block (p : P) : s.pc p = .entering → ¬ s.Admits → Step size s (s.setPc p .asleep)
  | absorb (p : P) (b : ℕ) : s.pc p = .inOp → b ∈ s.lh.entries →
      Step size s { s with
        writes := Function.update s.writes p (insert b (s.writes p))
        hist := .logged p (s.opno p) b :: s.hist }
  | append (p : P) (b : ℕ) : s.pc p = .inOp → b ∉ s.lh.entries → s.lh.n < LOGSIZE →
      s.lh.n < size - 1 →
      Step size s { s with
        lh := s.lh.add b
        pinned := Function.update s.pinned b (s.pinned b + 1)
        writes := Function.update s.writes p (insert b (s.writes p))
        hist := .logged p (s.opno p) b :: s.hist }
  | leave (p : P) : s.pc p = .inOp → s.committing = false → s.outstanding - 1 ≠ 0 →
      Step size s { s.wakeup.setPc p .outside with
        outstanding := s.outstanding - 1
        hist := .ended p (s.opno p) :: s.hist }
  | last (p : P) : s.pc p = .inOp → s.committing = false → s.outstanding - 1 = 0 →
      Step size s { s.setPc p (.committing .test) with
        outstanding := s.outstanding - 1
        committing := true
        hist := .ended p (s.opno p) :: s.hist }
  | commit (p : P) (c : CommitPc) : s.pc p = .committing c → Step size s (s.commit p c)

lemma Step.of_logWrite {p : P} {b : ℕ} (hp : s.pc p = .inOp) (h0 : 0 ≤ s.lh.n)
    (h : s.logWrite size p b = .ok s') : Step size s s' := by
  unfold Group.logWrite at h
  split_ifs at h with hfull hout hslot
  all_goals push Not at hfull; cases h
  · have hb := (Logheader.slot_eq_n_iff h0 b).mp hslot
    exact .append p b hp hb hfull.1 hfull.2
  · have hb : b ∈ s.lh.entries := by
      by_contra hb
      exact hslot ((Logheader.slot_eq_n_iff h0 b).mpr hb)
    rw [Logheader.add_of_mem h0 hb]
    exact .absorb p b hp hb

lemma Step.of_endOp {p : P} (hp : s.pc p = .inOp) (h : s.endOp p = .ok s') : Step size s s' := by
  simp only [Group.endOp] at h
  split_ifs at h with hcomm hlast
  · cases h
    exact .last p hp (by simpa using hcomm) hlast
  · cases h
    exact .leave p hp (by simpa using hcomm) hlast

lemma Step.of_step {e : Call P} (h0 : 0 ≤ s.lh.n) (h : step size s e = some (.ok s')) :
    Step size s s' := by
  cases e with
  | enter p =>
    simp only [step, Option.ite_none_right_eq_some, Option.some.injEq, Except.ok.injEq] at h
    obtain ⟨hp, rfl⟩ := h
    exact .retry p (.inl hp)
  | beginOp p =>
    simp only [step, Option.ite_none_right_eq_some, Option.some.injEq, Except.ok.injEq] at h
    obtain ⟨hp, rfl⟩ := h
    by_cases hadm : s.Admits
    · rw [beginOp, if_pos hadm]
      exact .enterOp p hp hadm
    · rw [beginOp, if_neg hadm]
      exact .block p hp hadm
  | logWrite p b =>
    simp only [step, Option.ite_some_none_eq_some] at h
    exact .of_logWrite h.1 h0 h.2
  | endOp p =>
    simp only [step, Option.ite_some_none_eq_some] at h
    exact .of_endOp h.1 h.2
  | commit p =>
    simp only [step] at h
    split at h
    · cases h
      exact .commit p _ ‹_›
    · cases h
  | kill p =>
    simp only [step, Option.ite_none_right_eq_some, Option.some.injEq, Except.ok.injEq] at h
    obtain ⟨hp, rfl⟩ := h
    exact .retry p (.inr hp)

/-! ### The counters and the flag -/

namespace Control

variable {pc : P → Pc} {n : ℤ} {f : Bool} {p : P}

/-- A process that is not in an operation moves to a place that is not in one either. -/
lemma move (h : Control pc n f) (hp : pc p ≠ .inOp) (hc : c ≠ .inOp)
    (hcomm : ∀ k, c = .committing k → ∃ k', pc p = .committing k') :
    Control (Function.update pc p c) n f := by
  -- whoever commits afterwards did so before
  have hback : ∀ q k, Function.update pc p c q = .committing k → ∃ k', pc q = .committing k' := by
    intro q k hq
    by_cases hqp : q = p
    · subst hqp
      rw [Function.update_self] at hq
      exact hcomm k hq
    · rw [Function.update_of_ne hqp] at hq
      exact ⟨k, hq⟩
  refine ⟨?_, h.quiet, fun q k hq => ?_, fun q r k k' hq hr => ?_⟩
  · obtain ⟨F, hF, hn⟩ := h.ops
    refine ⟨F, fun q => ?_, hn⟩
    rw [hF]
    by_cases hqp : q = p
    · subst hqp
      rw [Function.update_self]
      exact ⟨fun h => absurd h hp, fun h => absurd h hc⟩
    · rw [Function.update_of_ne hqp]
  · obtain ⟨k', hk'⟩ := hback q k hq
    exact h.flag q k' hk'
  · obtain ⟨k₁, hk₁⟩ := hback q k hq
    obtain ⟨k₂, hk₂⟩ := hback r k' hr
    exact h.unique q r k₁ k₂ hk₁ hk₂

lemma enterOp (h : Control pc n false) (hp : pc p ≠ .inOp) :
    Control (Function.update pc p .inOp) (n + 1) false := by
  have hnone : ∀ q k, Function.update pc p .inOp q ≠ .committing k := by
    intro q k hq
    by_cases hqp : q = p
    · subst hqp
      simp at hq
    · rw [Function.update_of_ne hqp] at hq
      exact absurd (h.flag q k hq) (by simp)
  refine ⟨?_, by simp, fun q k hq => absurd hq (hnone q k), fun q _ k _ hq => absurd hq (hnone q k)⟩
  obtain ⟨F, hF, hn⟩ := h.ops
  refine ⟨insert p F, fun q => ?_, ?_⟩
  · rw [Finset.mem_insert, hF, Function.update_apply]
    split_ifs with hqp <;> simp [hqp]
  · rw [Finset.card_insert_of_notMem fun hmem => hp ((hF p).mp hmem), hn]
    push_cast
    rfl

/-- The operation of `p` ends; if `p` goes on to commit, no operation may be left. -/
lemma finishOp (h : Control pc n false) (hp : pc p = .inOp) (hc : c ≠ .inOp) {f : Bool}
    (hcomm : ∀ k, c = .committing k → f = true) (hf : f = true → n - 1 = 0) :
    Control (Function.update pc p c) (n - 1) f := by
  have hsole : ∀ q k, Function.update pc p c q = .committing k → q = p ∧ f = true := by
    intro q k hq
    by_cases hqp : q = p
    · subst hqp
      rw [Function.update_self] at hq
      exact ⟨rfl, hcomm k hq⟩
    · rw [Function.update_of_ne hqp] at hq
      exact absurd (h.flag q k hq) (by simp)
  refine ⟨?_, hf, fun q k hq => (hsole q k hq).2, fun q r k k' hq hr =>
    (hsole q k hq).1.trans (hsole r k' hr).1.symm⟩
  obtain ⟨F, hF, hn⟩ := h.ops
  have hpF : p ∈ F := (hF p).mpr hp
  refine ⟨F.erase p, fun q => ?_, ?_⟩
  · rw [Finset.mem_erase, hF, Function.update_apply]
    split_ifs with hqp <;> simp [hqp, hc]
  · have := Finset.card_erase_add_one hpF
    omega

lemma finishCommit (h : Control pc n f) {k : CommitPc} (hp : pc p = .committing k) :
    Control (Function.update pc p .outside) n false := by
  have hmove : Control (Function.update pc p .outside) n f :=
    h.move (by simp [hp]) (by simp) (by simp)
  have hnone : ∀ q k', Function.update pc p .outside q ≠ .committing k' := by
    intro q k' hq
    by_cases hqp : q = p
    · subst hqp
      simp at hq
    · rw [Function.update_of_ne hqp] at hq
      exact hqp (h.unique q p k' k hq hp)
  exact ⟨hmove.ops, by simp, fun q k hq => absurd hq (hnone q k),
    fun q _ k _ hq => absurd hq (hnone q k)⟩

end Control

lemma Step.control (hstep : Step size s s') (h : Control s.pc s.outstanding s.committing) :
    Control s'.pc s'.outstanding s'.committing := by
  cases hstep with
  | retry p hp => exact h.move (by rcases hp with hp | hp <;> simp [hp]) (by simp) (by simp)
  | enterOp p hp hadm =>
    rw [hadm.1] at h
    simpa only [setPc, hadm.1] using h.enterOp (by simp [hp])
  | block p hp _ => exact h.move (by simp [hp]) (by simp) (by simp)
  | absorb => exact h
  | append => exact h
  | leave p hp hf hn =>
    rw [hf] at h
    simpa only [setPc, wakeup, hf] using h.wakeup.finishOp (c := .outside)
      ((wakeup_pc_eq_iff s p (by simp) (by simp)).mpr hp) (by simp) (by simp) (by simp)
  | last p hp hf hn =>
    rw [hf] at h
    exact h.finishOp hp (by simp) (fun _ _ => rfl) fun _ => hn
  | commit p c hp =>
    have hmove : ∀ k, Control (Function.update s.pc p (.committing k)) s.outstanding s.committing :=
      fun k => h.move (by simp [hp]) (by simp) fun _ _ => ⟨c, hp⟩
    cases c with
    | installTrans tail =>
      simp only [Group.commit]
      split_ifs
      · exact hmove _
      · exact hmove _
    | finish =>
      exact h.wakeup.finishCommit ((wakeup_pc_eq_iff s p (by simp) (by simp)).mpr hp)
    | _ => exact hmove _

/-! ### The header and the pins -/

namespace Header

lemma setPc (h : Header s) (p : P) (hc : ∀ k, c ≠ .committing k) : Header (s.setPc p c) := by
  refine ⟨h.n_nonneg, h.nodup, h.empty, h.pins, fun q k hq => h.held q k ?_⟩
  rw [setPc_pc] at hq
  split_ifs at hq with hqp
  · exact absurd hq (hc k)
  · exact hq

end Header

lemma Step.header (hstep : Step size s s') (hc : Control s.pc s.outstanding s.committing)
    (h : Header s) : Header s' := by
  have hc' := hstep.control hc
  cases hstep with
  | retry p _ => exact h.setPc p (by simp)
  | enterOp p hp hadm =>
    refine .of_not_committing hc' hadm.1 h.n_nonneg h.nodup (fun hzero => ?_) (h.pins hadm.1)
    obtain ⟨F, -, hF⟩ := hc.ops
    dsimp only at hzero
    omega
  | block p _ _ => exact h.setPc p (by simp)
  | absorb p b hp hb => exact ⟨h.n_nonneg, h.nodup, h.empty, h.pins, h.held⟩
  | append p b hp hb _ _ =>
    have hf := hc.committing_eq_false hp
    refine .of_not_committing hc' hf ?_ ?_ (fun hzero => ?_) ?_
    · rw [Logheader.n_add_of_notMem h.n_nonneg hb]
      exact add_nonneg h.n_nonneg zero_le_one
    · rw [Logheader.entries_add_of_notMem h.n_nonneg hb, List.nodup_append_comm]
      exact List.nodup_cons.mpr ⟨hb, h.nodup⟩
    · have := hc.outstanding_pos hp
      dsimp only at hzero
      omega
    · rw [Logheader.entries_add_of_notMem h.n_nonneg hb]
      exact (h.pins hf).update_append hb
  | leave p hp hf hn =>
    exact .of_not_committing hc' hf h.n_nonneg h.nodup (fun hzero => absurd hzero hn) (h.pins hf)
  | last p hp hf hn =>
    exact .of_committing hc' (Function.update_self ..) h.n_nonneg h.nodup (h.pins hf) False.elim
  | commit p c hp =>
    obtain ⟨hheld, hn⟩ := h.held p c hp
    cases c with
    | test =>
      refine .of_committing hc' (Function.update_self ..) h.n_nonneg h.nodup ?_ ?_
      all_goals split_ifs with hpos
      · exact hheld
      · -- nothing was logged, so there is nothing to release
        have hzero : s.lh.n = 0 := le_antisymm (not_lt.mp hpos) h.n_nonneg
        rw [Logheader.held, Logheader.entries_of_n_eq_zero hzero] at hheld
        exact hheld
      · exact False.elim
      · exact fun _ => le_antisymm (not_lt.mp hpos) h.n_nonneg
    | writeLog tail =>
      refine .of_committing hc' (Function.update_self ..) h.n_nonneg h.nodup ?_ ?_
      all_goals split_ifs
      · exact hheld
      · exact hheld
      · exact False.elim
      · exact False.elim
    | writeHead =>
      exact .of_committing hc' (Function.update_self ..) h.n_nonneg h.nodup hheld False.elim
    | installTrans tail =>
      simp only [Group.commit] at hc' ⊢
      split_ifs at hc' ⊢ with htail
      · have hlt : tail < s.lh.entries.length := by
          rw [Logheader.length_entries]
          omega
        have hget : s.lh.entries[tail] = s.lh.block tail := by simp [Logheader.entries]
        have hdrop := Pins.update_drop h.nodup hlt hheld
        rw [hget] at hdrop
        exact .of_committing hc' (Function.update_self ..) h.n_nonneg h.nodup hdrop False.elim
      · refine .of_committing hc' (Function.update_self ..) h.n_nonneg h.nodup ?_ False.elim
        have hnil : s.lh.entries.drop tail = [] := by
          rw [List.drop_eq_nil_iff, Logheader.length_entries]
          omega
        rw [Logheader.held, hnil] at hheld
        exact hheld
    | clear =>
      exact .of_committing hc' (Function.update_self ..) le_rfl List.nodup_nil hheld fun _ => rfl
    | eraseHead =>
      exact .of_committing hc' (Function.update_self ..) h.n_nonneg h.nodup hheld hn
    | finish =>
      refine .of_not_committing hc' rfl h.n_nonneg h.nodup (fun _ => hn trivial) ?_
      have hnil : (s.commit p .finish).lh.entries = [] :=
        Logheader.entries_of_n_eq_zero (hn trivial)
      rw [hnil]
      exact hheld

/-! ### Sleepers -/

lemma NoLostSleeper.setPc (h : NoLostSleeper s) (p : P) (hc : c = .asleep → ¬ s.Admits) :
    NoLostSleeper (s.setPc p c) := by
  intro q hq
  rw [setPc_pc] at hq
  split_ifs at hq with hqp
  · exact hc hq
  · exact h q hq

lemma NoLostSleeper.of_wakeup (p : P) (hpc : s'.pc = (s.wakeup.setPc p .outside).pc) :
    NoLostSleeper s' := by
  intro q hq
  rw [hpc, setPc_pc] at hq
  split_ifs at hq
  exact absurd hq (wakeup_pc_ne_asleep s q)

lemma Step.noLostSleeper (hstep : Step size s s') (hc : Control s.pc s.outstanding s.committing)
    (h0 : 0 ≤ s.lh.n) (h : NoLostSleeper s) : NoLostSleeper s' := by
  cases hstep with
  | retry p _ => exact h.setPc p (by simp)
  | enterOp p hp hadm =>
    -- if anybody slept, the test would have failed
    intro q hq
    refine absurd hadm (h q ?_)
    by_cases hqp : q = p
    · subst hqp
      simp [setPc] at hq
    · simpa [setPc, Function.update_of_ne hqp] using hq
  | block p hp hadm => exact h.setPc p fun _ => hadm
  | absorb => exact h
  | append p b hp hb _ _ =>
    intro q hq hadm
    refine h q hq ⟨hadm.1, ?_⟩
    have := hadm.2
    rw [Logheader.n_add_of_notMem h0 hb] at this
    dsimp only at this
    omega
  | leave p hp _ _ => exact .of_wakeup p rfl
  | last => exact .of_committing rfl
  | commit p c hp =>
    have hf := hc.flag p c hp
    cases c with
    | installTrans tail =>
      simp only [Group.commit]
      split_ifs
      · exact .of_committing hf
      · exact .of_committing hf
    | finish => exact .of_wakeup p rfl
    | _ => exact .of_committing hf

end Group

end Xv6.Log
