import Xv6.Pipe.Fifo

/-!
# Sleeping readers and writers

A reader that sleeps while the pipe is not empty, or a writer that sleeps while it is not full,
needs somebody to wake it up. Every way out of the loops ends in a wakeup, but for the return of a
writer that was killed: it may have appended bytes before.
-/

namespace Xv6.Pipes

open Core State

variable {P : Type} {s s' : State P} {p q : P} {e : Event P}

/-- Whether a process has the lock, by where it is. -/
def Pc.holds : Pc → Bool
  | .writing _ _ | .waiting _ | .copying _ _ => true
  | _ => false

/-- The process is in the loop of `pipewrite`, with the lock. -/
def Pc.isWriting : Pc → Bool
  | .writing _ _ => true
  | _ => false

/-- No process sleeps without cause. -/
structure Awake (s : State P) : Prop where
  empty : ∀ p c, s.pc p = .empty c → s.pipe.nread = s.pipe.nwrite ∧ s.pipe.writeopen = true
  full : ∀ p c i, s.pc p = .full c i →
    s.pipe.nwrite = s.pipe.nread + UInt32.ofNat PIPESIZE ∧ s.pipe.readopen = true

/-- The cause that a process has to sleep at the place. -/
def Pc.Cause (pi : Pipe) : Pc → Prop
  | .empty _ => pi.nread = pi.nwrite ∧ pi.writeopen = true
  | .full _ _ => pi.nwrite = pi.nread + UInt32.ofNat PIPESIZE ∧ pi.readopen = true
  | _ => True

variable {x : Pc}

lemma Pc.cause_of {pi : Pipe}
    (hempty : ∀ c, x = .empty c → pi.nread = pi.nwrite ∧ pi.writeopen = true)
    (hfull : ∀ c i, x = .full c i →
      pi.nwrite = pi.nread + UInt32.ofNat PIPESIZE ∧ pi.readopen = true) : x.Cause pi := by
  cases x with
  | empty c => exact hempty c rfl
  | full c i => exact hfull c i rfl
  | _ => trivial

/-- A process is not killed while it is in the loop of `pipewrite`. -/
def SparesWriter (s : State P) : Event P → Prop
  | .kill p => (s.pc p).isWriting = false
  | _ => True

/-- Sleepers have a cause to sleep, or the process with the lock will wake them up. -/
structure Attended (s : State P) : Prop where
  lock : ∀ p, (s.pc p).holds = true ↔ s.lock = some p
  empty : ∀ p c, s.pc p = .empty c → (s.pipe.nread = s.pipe.nwrite ∧ s.pipe.writeopen = true) ∨
    ∃ q d i, s.pc q = .writing d i ∧ s.killed q = false ∧ s.pipe.readopen = true
  full : ∀ p c i, s.pc p = .full c i →
    (s.pipe.nwrite = s.pipe.nread + UInt32.ofNat PIPESIZE ∧ s.pipe.readopen = true) ∨
    ∃ q d j, s.pc q = .copying d j

namespace Attended

/-- The lock excludes others. -/
lemma holds_unique (h : Attended s) (hp : (s.pc p).holds = true)
    (hq : (s.pc q).holds = true) : p = q := by
  have hp' := (h.lock p).mp hp
  rw [(h.lock q).mp hq] at hp'
  exact (Option.some.inj hp').symm

lemma awake (h : Attended s) (hlock : s.lock = none) : Awake s := by
  have hfree : ∀ q, (s.pc q).holds ≠ true := by
    intro q hq
    rw [(h.lock q).mp hq] at hlock
    cases hlock
  refine ⟨?_, ?_⟩
  · intro p c hp
    refine (h.empty p c hp).resolve_right ?_
    rintro ⟨q, d, i, hq, -⟩
    exact hfree q (by rw [hq]; rfl)
  · intro p c i hp
    refine (h.full p c i hp).resolve_right ?_
    rintro ⟨q, d, j, hq⟩
    exact hfree q (by rw [hq]; rfl)

variable {c : Read}

/-- If the lock is not with a writer, the readers that sleep have a cause. -/
lemma empty_left (h : Attended s) (hp : (s.pc p).holds = true) (hpw : (s.pc p).isWriting = false)
    (hq : s.pc q = .empty c) : s.pipe.nread = s.pipe.nwrite ∧ s.pipe.writeopen = true := by
  refine (h.empty q c hq).resolve_right ?_
  rintro ⟨q', d, i, hq', -⟩
  obtain rfl := h.holds_unique hp (by rw [hq']; rfl)
  rw [hq'] at hpw
  cases hpw

variable {i : ℕ}

/-- If the lock is not with a reader that copies, the writers that sleep have a cause. -/
lemma full_left (h : Attended s) (hp : (s.pc p).holds = true) (hpc : ∀ d j, s.pc p ≠ .copying d j)
    {c : Write} (hq : s.pc q = .full c i) :
    s.pipe.nwrite = s.pipe.nread + UInt32.ofNat PIPESIZE ∧ s.pipe.readopen = true := by
  refine (h.full q c i hq).resolve_right ?_
  rintro ⟨q', d, j, hq'⟩
  obtain rfl := h.holds_unique hp (by rw [hq']; rfl)
  exact hpc d j hq'

/-! ### Waking up -/

lemma holds_wakeupRead (q : P) : (s.wakeupRead.pc q).holds = (s.pc q).holds := by
  unfold wakeupRead
  dsimp only
  split
  · next hq => rw [hq]; rfl
  · rfl

lemma holds_wakeupWrite (q : P) : (s.wakeupWrite.pc q).holds = (s.pc q).holds := by
  unfold wakeupWrite
  dsimp only
  split
  · next hq => rw [hq]; rfl
  · rfl

lemma wakeupRead_ne_empty (q : P) (c : Read) : s.wakeupRead.pc q ≠ .empty c := by
  unfold wakeupRead
  dsimp only
  split
  · exact fun hq => by cases hq
  · next hne => exact fun hq => hne c hq

lemma wakeupWrite_ne_full (q : P) (c : Write) (i : ℕ) : s.wakeupWrite.pc q ≠ .full c i := by
  unfold wakeupWrite
  dsimp only
  split
  · exact fun hq => by cases hq
  · next hne => exact fun hq => hne c i hq

lemma full_of_wakeupRead {c : Write} (hq : s.wakeupRead.pc q = .full c i) : s.pc q = .full c i := by
  unfold wakeupRead at hq
  dsimp only at hq
  split at hq
  · cases hq
  · exact hq

lemma empty_of_wakeupWrite (hq : s.wakeupWrite.pc q = .empty c) : s.pc q = .empty c := by
  unfold wakeupWrite at hq
  dsimp only at hq
  split at hq
  · cases hq
  · exact hq

/-! ### The steps -/

variable [DecidableEq P]

/-- A process with the lock, or that takes it, goes on with it. -/
lemma keep (h : Attended s) (hlock : s.lock = none ∨ s.lock = some p)
    (hx : x.holds = true) (hs'pc : s'.pc = Function.update s.pc p x) (hs'lock : s'.lock = some p)
    (hempty : ∀ q c, s.pc q = .empty c →
      (s'.pipe.nread = s'.pipe.nwrite ∧ s'.pipe.writeopen = true) ∨
      ∃ q d i, s'.pc q = .writing d i ∧ s'.killed q = false ∧ s'.pipe.readopen = true)
    (hfull : ∀ q c i, s.pc q = .full c i →
      (s'.pipe.nwrite = s'.pipe.nread + UInt32.ofNat PIPESIZE ∧ s'.pipe.readopen = true) ∨
      ∃ q d j, s'.pc q = .copying d j) : Attended s' := by
  have hp : s'.pc p = x := by rw [hs'pc, Function.update_self]
  have hne : ∀ q, q ≠ p → s'.pc q = s.pc q := by
    intro q hqp
    rw [hs'pc, Function.update_of_ne hqp]
  -- a process that sleeps is another one
  have hother : ∀ q, (s'.pc q).holds = false → s'.pc q = s.pc q := by
    intro q hq
    refine hne q ?_
    rintro rfl
    rw [hp, hx] at hq
    cases hq
  refine ⟨?_, ?_, ?_⟩
  · intro q
    rw [hs'lock]
    rcases eq_or_ne q p with rfl | hqp
    · rw [hp]
      exact ⟨fun _ => rfl, fun _ => hx⟩
    · rw [hne q hqp, h.lock q]
      rcases hlock with hlock | hlock <;> simp [hlock, hqp.symm]
  · intro q c hq
    exact hempty q c (by rw [← hother q (by rw [hq]; rfl), hq])
  · intro q c i hq
    exact hfull q c i (by rw [← hother q (by rw [hq]; rfl), hq])

/-- A process takes the lock. -/
lemma acquire (h : Attended s) (hlock : s.lock = none) (hx : x.holds = true)
    (hs'pc : s'.pc = Function.update s.pc p x) (hs'lock : s'.lock = some p)
    (hs'pipe : s'.pipe = s.pipe) : Attended s' := by
  refine h.keep (.inl hlock) hx hs'pc hs'lock (fun q c hq => .inl ?_) fun q c i hq => .inl ?_
  · rw [hs'pipe]
    exact (h.awake hlock).empty q c hq
  · rw [hs'pipe]
    exact (h.awake hlock).full q c i hq

/-- The process with the lock gives it up, when all who sleep have a cause. -/
lemma leave (h : Attended s) (hp : (s.pc p).holds = true) {pc : P → Pc}
    (hpc : ∀ q, (pc q).holds = (s.pc q).holds) (hx : x.holds = false)
    (hs'pc : s'.pc = Function.update pc p x) (hs'lock : s'.lock = none) (hself : x.Cause s'.pipe)
    (hothers : ∀ q, (pc q).Cause s'.pipe) : Attended s' := by
  have hcases : ∀ q, s'.pc q = x ∨ q ≠ p ∧ s'.pc q = pc q := by
    intro q
    rw [hs'pc]
    rcases eq_or_ne q p with rfl | hqp
    · exact .inl (Function.update_self ..)
    · exact .inr ⟨hqp, Function.update_of_ne hqp ..⟩
  have hcause : ∀ q, (s'.pc q).Cause s'.pipe := by
    intro q
    rcases hcases q with hq | ⟨-, hq⟩
    · rw [hq]
      exact hself
    · rw [hq]
      exact hothers q
  refine ⟨?_, fun q c hq => .inl ?_, fun q c i hq => .inl ?_⟩
  · intro q
    rw [hs'lock]
    refine ⟨fun hq => ?_, fun hq => by cases hq⟩
    rcases hcases q with hqx | ⟨hqp, hqpc⟩
    · rw [hqx, hx] at hq
      cases hq
    · rw [hqpc, hpc] at hq
      exact absurd (h.holds_unique hq hp) hqp
  · have := hcause q
    rwa [hq] at this
  · have := hcause q
    rwa [hq] at this

/-- A writer that leaves the loop after a wakeup. -/
lemma leaveWrite (h : Attended s) {c : Write} (hp : s.pc p = .writing c i) (hx : x.holds = false)
    (hself : x.Cause s.pipe) (hs'pc : s'.pc = Function.update s.wakeupRead.pc p x)
    (hs'lock : s'.lock = none) (hs'pipe : s'.pipe = s.pipe) : Attended s' := by
  have hholds : (s.pc p).holds = true := by rw [hp]; rfl
  refine h.leave hholds holds_wakeupRead hx hs'pc hs'lock (hs'pipe ▸ hself) fun q => ?_
  rw [hs'pipe]
  refine Pc.cause_of (fun d hd => absurd hd (wakeupRead_ne_empty q d)) fun d j hd => ?_
  exact h.full_left hholds (by simp [hp]) (full_of_wakeupRead hd)

lemma writeRound (h : Attended s) {c : Write} (hp : s.pc p = .writing c i) :
    Attended (writeRound s p c i) := by
  have hholds : (s.pc p).holds = true := by rw [hp]; rfl
  have hleft : ∀ q d j, s.pc q = .full d j → _ := fun q d j => h.full_left hholds (by simp [hp])
  unfold Pipes.writeRound
  split_ifs with hi hdead hfull
  · -- the return without a wakeup: the writer was not one that readers rely on
    refine h.leave hholds (x := .out) (fun _ => rfl) rfl rfl rfl trivial fun q => ?_
    refine Pc.cause_of (fun d hq => ?_) (hleft q)
    refine (h.empty q d hq).resolve_right ?_
    rintro ⟨q', d', j, hq', hkilled, hopen⟩
    obtain rfl := h.holds_unique hholds (by rw [hq']; rfl)
    rcases hdead with hclosed | hdead
    · rw [hopen] at hclosed
      cases hclosed
    · rw [hkilled] at hdead
      cases hdead
  · have hopen : s.pipe.readopen = true := by
      by_contra hclosed
      exact hdead (.inl (by simpa using hclosed))
    exact h.leaveWrite hp (x := .full c i) rfl ⟨hfull, hopen⟩ rfl rfl rfl
  · have hopen : s.pipe.readopen = true := by
      by_contra hclosed
      exact hdead (.inl (by simpa using hclosed))
    have halive : s.killed p = false := by
      by_contra hkilled
      exact hdead (.inr (by simpa using hkilled))
    split
    · exact h.leaveWrite hp (x := .out) rfl trivial rfl rfl rfl
    · have hlock := (h.lock p).mp hholds
      refine h.keep (.inr hlock) (x := .writing c (i + 1)) rfl rfl hlock ?_ ?_
      · intro q d _
        exact .inr ⟨p, c, i + 1, Function.update_self .., halive, hopen⟩
      · intro q d j hq
        exact absurd (hleft q d j hq).1 hfull
  · exact h.leaveWrite hp (x := .out) rfl trivial rfl rfl rfl

lemma waitRound (h : Attended s) (hp : s.pc p = .waiting c) : Attended (waitRound s p c) := by
  have hholds : (s.pc p).holds = true := by rw [hp]; rfl
  have hleft : ∀ q d, s.pc q = .empty d → _ := fun q d => h.empty_left hholds (by rw [hp]; rfl)
  have hothers : ∀ q, (s.pc q).Cause s.pipe := fun q =>
    Pc.cause_of (hleft q) fun d j hq => h.full_left hholds (by simp [hp]) hq
  unfold Pipes.waitRound
  split_ifs with hempty hkilled
  · exact h.leave hholds (x := .out) (fun _ => rfl) rfl rfl rfl trivial hothers
  · exact h.leave hholds (x := .empty c) (fun _ => rfl) rfl rfl rfl hempty hothers
  · have hlock := (h.lock p).mp hholds
    refine h.keep (.inr hlock) (x := .copying c 0) rfl rfl hlock ?_ ?_
    · exact fun q d hq => .inl (hleft q d hq)
    · exact fun q d j _ => .inr ⟨p, c, 0, Function.update_self ..⟩

/-- The end of `piperead`, after a byte was removed or not. -/
lemma returnRead (h : Attended s) (hp : s.pc p = .copying c i) {t : State P} (htpc : t.pc = s.pc)
    (hempty : ∀ q d, s.pc q = .empty d → t.pipe.nread = t.pipe.nwrite ∧ t.pipe.writeopen = true) :
    Attended (returnRead t p) := by
  refine h.leave (p := p) (by rw [hp]; rfl) (x := .out) (fun q => ?_) rfl rfl rfl trivial
    fun q => ?_
  · rw [holds_wakeupWrite, htpc]
  · refine Pc.cause_of (fun d hd => ?_) fun d j hd => absurd hd (wakeupWrite_ne_full q d j)
    exact hempty q d (htpc ▸ empty_of_wakeupWrite hd)

lemma copyRound (h : Attended s) (hp : s.pc p = .copying c i) : Attended (copyRound s p c i) := by
  have hholds : (s.pc p).holds = true := by rw [hp]; rfl
  have hleft : ∀ q d, s.pc q = .empty d → s.pipe.nread = s.pipe.nwrite ∧ s.pipe.writeopen = true :=
    fun q d hq => h.empty_left hholds (by rw [hp]; rfl) hq
  unfold Pipes.copyRound
  split_ifs with hi hdst
  · have hlock := (h.lock p).mp hholds
    refine h.keep (.inr hlock) (x := .copying c (i + 1)) rfl rfl hlock ?_ ?_
    · exact fun q d hq => absurd (hleft q d hq).1 hi.2
    · exact fun q d j _ => .inr ⟨p, c, i + 1, Function.update_self ..⟩
  · exact h.returnRead hp rfl fun q d hq => absurd (hleft q d hq).1 hi.2
  · exact h.returnRead hp rfl hleft

omit [DecidableEq P] in
lemma pipeclose (h : Attended s) (hlock : s.lock = none) (writable : Bool) :
    Attended (pipeclose s writable) := by
  have hawake := h.awake hlock
  unfold Pipes.pipeclose
  split_ifs
  · refine ⟨?_, ?_, ?_⟩
    · intro q
      rw [holds_wakeupRead]
      exact h.lock q
    · exact fun q d hq => absurd hq (wakeupRead_ne_empty q d)
    · exact fun q d j hq => .inl (hawake.full q d j (full_of_wakeupRead hq))
  · refine ⟨?_, ?_, ?_⟩
    · intro q
      rw [holds_wakeupWrite]
      exact h.lock q
    · exact fun q d hq => .inl (hawake.empty q d (empty_of_wakeupWrite hq))
    · exact fun q d j hq => absurd hq (wakeupWrite_ne_full q d j)

/-- A process other than the writer with the lock is killed. -/
lemma kill (h : Attended s) (hp : (s.pc p).isWriting = false) : Attended (kill s p) := by
  have hne : ∀ q, q ≠ p → (Pipes.kill s p).pc q = s.pc q :=
    fun q hqp => Function.update_of_ne hqp ..
  have hself : (Pipes.kill s p).pc p = _ := Function.update_self ..
  refine ⟨?_, ?_, ?_⟩
  · intro q
    show _ ↔ s.lock = some q
    rw [← h.lock q]
    rcases eq_or_ne q p with rfl | hqp
    · rw [hself]
      split
      · next hq => rw [hq]; rfl
      · next hq => rw [hq]; rfl
      · rfl
    · rw [hne q hqp]
  · intro q d hq
    have hqp : q ≠ p := by
      rintro rfl
      rw [hself] at hq
      split at hq <;> simp_all
    rw [hne q hqp] at hq
    rcases h.empty q d hq with hleft | ⟨q', d', i, hq', hkilled, hopen⟩
    · exact .inl hleft
    · have hqp' : q' ≠ p := by
        rintro rfl
        rw [hq'] at hp
        cases hp
      refine .inr ⟨q', d', i, (hne q' hqp').trans hq', ?_, hopen⟩
      exact (Function.update_of_ne hqp' ..).trans hkilled
  · intro q d j hq
    have hqp : q ≠ p := by
      rintro rfl
      rw [hself] at hq
      split at hq <;> simp_all
    rw [hne q hqp] at hq
    rcases h.full q d j hq with hleft | ⟨q', d', i, hq'⟩
    · exact .inl hleft
    · refine .inr ⟨q', d', i, ?_⟩
      rcases eq_or_ne q' p with rfl | hqp'
      · rw [hself, hq']
      · rw [hne q' hqp', hq']

lemma next (h : Attended s) (hspares : SparesWriter s e) (hnext : next s e = some s') :
    Attended s' := by
  cases e with
  | write p src n =>
    simp only [Pipes.next] at hnext
    split at hnext
    · next _ hlock =>
      cases hnext
      exact h.acquire hlock (x := .writing ⟨s.next, src, n⟩ 0) rfl rfl rfl rfl
    · cases hnext
  | read p dst n =>
    simp only [Pipes.next] at hnext
    split at hnext
    · next _ hlock =>
      cases hnext
      exact h.acquire hlock (x := .waiting ⟨dst, n⟩) rfl rfl rfl rfl
    · cases hnext
  | step p =>
    simp only [Pipes.next] at hnext
    split at hnext
    · next hp =>
      cases hnext
      exact h.writeRound hp
    · next hp =>
      cases hnext
      exact h.waitRound hp
    · next hp =>
      cases hnext
      exact h.copyRound hp
    · next c i _ =>
      split_ifs at hnext with hlock
      cases hnext
      exact h.acquire (Option.isNone_iff_eq_none.mp hlock) (x := .writing c i) rfl rfl rfl rfl
    · next c _ =>
      split_ifs at hnext with hlock
      cases hnext
      exact h.acquire (Option.isNone_iff_eq_none.mp hlock) (x := .waiting c) rfl rfl rfl rfl
    · cases hnext
    · cases hnext
    · cases hnext
  | close writable =>
    simp only [Pipes.next] at hnext
    split_ifs at hnext with hlock
    cases hnext
    exact h.pipeclose (Option.isNone_iff_eq_none.mp hlock) writable
  | kill p =>
    cases hnext
    exact h.kill hspares

lemma of_reachable (h : (machine P).ReachableBy SparesWriter s) : Attended s := by
  refine h.invariant ?_ fun s e s' hs hspares hnext => hs.next hspares hnext
  intro s hs
  refine ⟨?_, ?_, ?_⟩
  · intro p
    rw [hs.pc p, hs.lock]
    exact ⟨fun hp => (by cases hp), fun hp => (by cases hp)⟩
  · intro p c hp
    rw [hs.pc p] at hp
    cases hp
  · intro p c i hp
    rw [hs.pc p] at hp
    cases hp

end Attended

variable [DecidableEq P]

/-- In a run in which no process is killed inside the loop of `pipewrite`, whenever the lock is free
a reader sleeps only on an empty pipe with a writer left, and a writer only on a full one with a
reader left. -/
theorem awake_of_reachable (h : (machine P).ReachableBy SparesWriter s) (hlock : s.lock = none) :
    Awake s := (Attended.of_reachable h).awake hlock

instance (s : State P) (e : Event P) : Decidable (SparesWriter s e) :=
  match e with
  | .kill p => inferInstanceAs (Decidable ((s.pc p).isWriting = false))
  | .write _ _ _ | .read _ _ _ | .step _ | .close _ => .isTrue trivial

/-- The process 1 sleeps on an empty pipe. -/
def sleeping : State (Fin 2) :=
  ((machine (Fin 2)).execBy SparesWriter (fresh _)
    [.read 1 (fun _ => true) 1, .step 1]).get (by decide +kernel)

theorem awake_sleeping : (machine (Fin 2)).ReachableBy SparesWriter sleeping ∧
    sleeping.lock = none ∧ (∃ c, sleeping.pc 1 = .empty c) ∧ Awake sleeping := by
  have hreach : (machine (Fin 2)).ReachableBy SparesWriter sleeping :=
    .of_execBy (.init fresh_fresh) (Option.some_get _).symm
  exact ⟨hreach, by decide +kernel, ⟨_, rfl⟩, awake_of_reachable hreach (by decide +kernel)⟩

/-- A reader sleeps; a writer appends a byte of two, is killed, and returns. -/
def killedWriter : State (Fin 2) :=
  ((machine (Fin 2)).exec (fresh _)
    [.read 1 (fun _ => true) 1, .step 1, .write 0 (fun _ => some 7) 2, .step 0, .kill 0,
      .step 0]).getD (fresh _)

/-- The reader still sleeps, although there is a byte for it. -/
theorem killedWriter_not_awake : (machine (Fin 2)).Reachable killedWriter ∧
    killedWriter.lock = none ∧ (∃ c, killedWriter.pc 1 = .empty c) ∧
    killedWriter.pipe.nread ≠ killedWriter.pipe.nwrite ∧ ¬ Awake killedWriter := by
  have hreach : (machine (Fin 2)).Reachable killedWriter :=
    .getD_exec fresh_fresh (by decide +kernel)
  have hne : killedWriter.pipe.nread ≠ killedWriter.pipe.nwrite := by decide +kernel
  have hempty : ∃ c, killedWriter.pc 1 = .empty c := ⟨_, rfl⟩
  refine ⟨hreach, by decide +kernel, hempty, hne, ?_⟩
  intro h
  obtain ⟨c, hc⟩ := hempty
  exact hne (h.empty 1 c hc).1

end Xv6.Pipes
