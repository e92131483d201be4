import Xv6.Core.LockLogic
import Xv6.Sched.Kernel

/-!
# What the threads of the kernel may do

`Act` lists the updates of the shared state, each with the locks and the facts it needs. The
invariants follow from this list alone: what holds always (`Inv`), while the lock of a process is
free (`ProcFree`), while `wait_lock` is free (`Family`) and while the lock of a condition is free
(`CondFree`).
-/

namespace Xv6.Sched

open Core

variable {H : Type}

/-! ### Slots -/

namespace Slot

/-- The process has been started and has not exited. -/
def Alive (x : Slot H) : Prop := x.state = .sleeping ∨ x.state = .runnable ∨ x.state = .running

/-- The process has been started, and may have exited. -/
def Born (x : Slot H) : Prop := x.Alive ∨ x.state = .zombie

/-- The process sleeps on the channel, or is about to. -/
def Pending (x : Slot H) (chan : Chan) : Prop :=
  (x.state = .sleeping ∧ x.chan = chan) ∨ x.drowsy = some chan

/-- Resuming the thread of the slot would start a new process. -/
def Dormant (x : Slot H) : Prop := x.fresh = true ∨ ¬ x.Alive

/-- A slot in state `USED` is being created by some process, which becomes the parent. -/
structure WellFormed (x : Slot H) : Prop where
  parent_of_unused : x.state = .unused → x.parent = none
  used_iff : x.state = .used ↔ x.creator ≠ none
  parent_of_creator : ∀ q, x.creator = some q → x.parent = none ∨ x.parent = some q

end Slot

/-- An update of a slot that leaves the process where it is, except that it may wake it up. -/
structure Calm (p p' : Proc) : Prop where
  state : p'.state = p.state ∨ (p.state = .sleeping ∧ p'.state = .runnable)
  chan : p'.chan = p.chan
  parent : p'.parent = p.parent
  xstate : p'.xstate = p.xstate

lemma calm_wakeup (p : Proc) (chan : Chan) : Calm p (p.wakeup chan) := by
  unfold Proc.wakeup
  split_ifs with h
  · exact ⟨.inr ⟨h.1, rfl⟩, rfl, rfl, rfl⟩
  · exact ⟨.inl rfl, rfl, rfl, rfl⟩

lemma calm_kill (p : Proc) : Calm p p.kill := by
  refine ⟨?_, rfl, rfl, rfl⟩
  by_cases h : p.state = .sleeping
  · exact .inr ⟨h, by simp [Proc.kill, h]⟩
  · exact .inl (by simp [Proc.kill, h])

lemma calm_setpriority (p : Proc) (v : Int32) : Calm p (p.setpriority v) :=
  ⟨.inl rfl, rfl, rfl, rfl⟩

lemma calm_updateTime (p : Proc) : Calm p p.updateTime := by
  unfold Proc.updateTime
  split <;> exact ⟨.inl (by simp [*]), rfl, rfl, rfl⟩

/-! ### Updates -/

/-- No hart runs the process. -/
def OffCpu (s : State H) (i : Fin NPROC) : Prop := (s.slot i).hart = none ∧ ∀ h, s.cpu h ≠ some i

/-- The lock that has to be held to go to sleep on a channel. -/
def chanLock : Chan → Option Lock
  | .proc _ => some .wait
  | .obj (k + 1) => some (.obj k)
  | .obj 0 => none
  | .null => none

/-- What goes along with the update of a slot. -/
inductive Effect (H : Type)
  | none
  | cpu (h : H) (o : Option (Fin NPROC))
  | log (r : Record)

/-- The updates of slot `i` by the thread `t` with the locks `Hs`: from the state `s` to the new
slot. -/
inductive SlotAct (t : Thread H) (Hs : Set Lock) (s : State H) (i : Fin NPROC) :
    Slot H → Effect H → Prop
  | calm (p' : Proc) (hl : .proc i ∈ Hs) (h : Calm (s.slot i).toProc p') :
      SlotAct t Hs s i { s.slot i with toProc := p' } .none
  | alloc (q : Fin NPROC) (p' : Proc) (ht : t = .proc q) (hl : .proc i ∈ Hs)
      (hs : (s.slot i).state = .unused) (hs' : p'.state = .used)
      (hpar : p'.parent = (s.slot i).parent) :
      SlotAct t Hs s i { s.slot i with toProc := p', creator := some q } .none
  | setContext (q : Fin NPROC) (ht : t = .proc q) (hl : .proc i ∈ Hs)
      (hc : (s.slot i).creator = some q) :
      SlotAct t Hs s i { s.slot i with fresh := true } .none
  | abandon (q : Fin NPROC) (p' : Proc) (ht : t = .proc q) (hl : .proc i ∈ Hs)
      (hc : (s.slot i).creator = some q) (hpar : (s.slot i).parent = none)
      (hs' : p'.state = .unused) (hpar' : p'.parent = none) :
      SlotAct t Hs s i { s.slot i with toProc := p', creator := none } .none
  | adopt (q : Fin NPROC) (ht : t = .proc q) (hl : .wait ∈ Hs) (hc : (s.slot i).creator = some q) :
      SlotAct t Hs s i { s.slot i with parent := some q } .none
  | ready (q : Fin NPROC) (ht : t = .proc q) (hl : .proc i ∈ Hs)
      (hc : (s.slot i).creator = some q) (hpar : (s.slot i).parent = some q)
      (hf : (s.slot i).fresh = true) (hq : (s.slot q).state = .running) :
      SlotAct t Hs s i { s.slot i with state := .runnable, creator := none } .none
  | dispatch (h : H) (p' : Proc) (ht : t = .sched h) (hl : .proc i ∈ Hs)
      (hs : (s.slot i).state = .runnable) (hcpu : s.cpu h = none) (hoff : OffCpu s i)
      (hs' : p'.state = .running) (hpar : p'.parent = (s.slot i).parent) :
      SlotAct t Hs s i { s.slot i with toProc := p' } (.cpu h (some i))
  | enter (h : H) (ht : t = .sched h) (hl : .proc i ∈ Hs) (hcpu : s.cpu h = some i)
      (hs : (s.slot i).state = .running) (hh : (s.slot i).hart = none) :
      SlotAct t Hs s i { s.slot i with hart := some h } .none
  | leave (ht : t = .proc i) (hl : .proc i ∈ Hs) (hs : (s.slot i).state ≠ .running) :
      SlotAct t Hs s i { s.slot i with hart := none } .none
  | clear (h : H) (ht : t = .sched h) (hl : .proc i ∈ Hs) (hcpu : s.cpu h = some i)
      (hh : (s.slot i).hart = none) :
      SlotAct t Hs s i (s.slot i) (.cpu h none)
  | yield (ht : t = .proc i) (hl : .proc i ∈ Hs) (hs : (s.slot i).state = .running) :
      SlotAct t Hs s i { s.slot i with state := .runnable } .none
  | drowse (chan : Chan) (ht : t = .proc i) (hl : .proc i ∈ Hs)
      (hs : (s.slot i).state = .running) (hc : ∀ l, chanLock chan = some l → l ∈ Hs) :
      SlotAct t Hs s i { s.slot i with drowsy := some chan } .none
  | doze (chan : Chan) (ht : t = .proc i) (hl : .proc i ∈ Hs)
      (hs : (s.slot i).state = .running) (hd : (s.slot i).drowsy = some chan) :
      SlotAct t Hs s i
        { s.slot i with state := .sleeping, chan := chan, drowsy := none } .none
  | unchan (ht : t = .proc i) (hl : .proc i ∈ Hs) (hs : (s.slot i).state = .running) :
      SlotAct t Hs s i { s.slot i with chan := .null } .none
  | start (ht : t = .proc i) (hl : .proc i ∈ Hs) (hs : (s.slot i).state = .running) :
      SlotAct t Hs s i { s.slot i with fresh := false } .none
  | reparent (q : Fin NPROC) (ht : t = .proc q) (hl : .wait ∈ Hs)
      (hpar : (s.slot i).parent = some q) (hc : (s.slot i).creator = none) :
      SlotAct t Hs s i { s.slot i with parent := some s.initproc } .none
  | exit (status : Int32) (p' : Proc) (ht : t = .proc i) (hl : .proc i ∈ Hs) (hw : .wait ∈ Hs)
      (hs : (s.slot i).state = .running) (hi : i ≠ s.initproc) (hs' : p'.state = .zombie)
      (hx : p'.xstate = status) (hpar : p'.parent = (s.slot i).parent) :
      SlotAct t Hs s i { s.slot i with toProc := p' } (.log (.exited i status))
  | reap (q : Fin NPROC) (p' : Proc) (ht : t = .proc q) (hl : .proc i ∈ Hs) (hw : .wait ∈ Hs)
      (hs : (s.slot i).state = .zombie) (hpar : (s.slot i).parent = some q) (hoff : OffCpu s i)
      (hs' : p'.state = .unused) (hpar' : p'.parent = none) :
      SlotAct t Hs s i { s.slot i with toProc := p' } (.log (.reaped i q (s.slot i).xstate))

/-! ### What happens to one slot -/

namespace SlotAct

variable {t : Thread H} {Hs : Set Lock} {s : State H} {i : Fin NPROC} {x : Slot H} {e : Effect H}

lemma wellFormed (h : SlotAct t Hs s i x e) (hx : (s.slot i).WellFormed) : x.WellFormed := by
  obtain ⟨hunused, hused, hcreator⟩ := hx
  cases h with
  | calm p' hl h =>
    obtain ⟨hstate, -, hpar, -⟩ := h
    constructor <;> grind
  | _ => constructor <;> grind

/-- Only with the lock of its channel does a process start to sleep. -/
lemma pending (h : SlotAct t Hs s i x e) {chan : Chan} (hx : x.Pending chan) :
    (s.slot i).Pending chan ∨ ∀ l, chanLock chan = some l → l ∈ Hs := by
  cases h with
  | calm p' hl h =>
    obtain ⟨hstate, hchan, -, -⟩ := h
    grind [Slot.Pending]
  | _ => grind [Slot.Pending]

/-- Without its lock, only the parent of a slot changes. -/
lemma of_not_locked (h : SlotAct t Hs s i x e) (hl : .proc i ∉ Hs) :
    .wait ∈ Hs ∧ e = .none ∧ ∃ par, x = { s.slot i with parent := par } := by
  cases h with
  | adopt q ht hw => exact ⟨hw, rfl, _, rfl⟩
  | reparent q ht hw => exact ⟨hw, rfl, _, rfl⟩
  | _ => contradiction

/-- What `wait_lock` protects. -/
structure KeepsFamily (x x' : Slot H) : Prop where
  parent : x'.parent = x.parent
  zombie : x'.state = .zombie ↔ x.state = .zombie
  alive : x.Alive → x'.Alive

lemma keepsFamily (h : SlotAct t Hs s i x e) (hw : .wait ∉ Hs) (hx : (s.slot i).WellFormed) :
    KeepsFamily (s.slot i) x := by
  obtain ⟨-, hused, -⟩ := hx
  cases h with
  | calm p' hl h =>
    obtain ⟨hstate, -, hpar, -⟩ := h
    constructor <;> grind [Slot.Alive]
  | adopt | reparent | exit | reap => contradiction
  | _ => constructor <;> grind [Slot.Alive]

/-- A process is started by its parent, which is running. -/
lemma born (h : SlotAct t Hs s i x e) (hx : x.Born) :
    (s.slot i).Born ∨ ∃ q, x.parent = some q ∧ (s.slot q).state = .running ∧ t = .proc q := by
  cases h with
  | calm p' hl h =>
    obtain ⟨hstate, -, -, -⟩ := h
    grind [Slot.Born, Slot.Alive]
  | ready q ht hl hc hpar hf hq => exact .inr ⟨q, hpar, hq, ht⟩
  | _ => grind [Slot.Born, Slot.Alive]

/-- What only the process itself changes while it lives. -/
structure KeepsSelf (x x' : Slot H) : Prop where
  alive : x'.Alive
  fresh : x'.fresh = x.fresh
  drowsy : x'.drowsy = x.drowsy
  running : x.state = .running → x'.state = .running
  hart : x.hart ≠ none → x'.hart = x.hart

lemma keepsSelf (h : SlotAct t Hs s i x e) (ht : t ≠ .proc i) (ha : (s.slot i).Alive)
    (hx : (s.slot i).WellFormed) : KeepsSelf (s.slot i) x := by
  obtain ⟨-, hused, -⟩ := hx
  cases h with
  | calm p' hl h =>
    obtain ⟨hstate, -, -, -⟩ := h
    constructor <;> grind [Slot.Alive]
  | leave | yield | drowse | doze | unchan | start | exit => contradiction
  | _ => constructor <;> grind [Slot.Alive]

/-- What only the creator of a process changes. -/
structure KeepsCreated (x x' : Slot H) : Prop where
  creator : x'.creator = x.creator
  fresh : x'.fresh = x.fresh
  parent : x'.parent = x.parent

lemma creator_eq_some_iff (h : SlotAct t Hs s i x e) {p : Fin NPROC} (ht : t ≠ .proc p)
    (hx : (s.slot i).WellFormed) : x.creator = some p ↔ (s.slot i).creator = some p := by
  obtain ⟨-, hused, -⟩ := hx
  cases h <;> grind

lemma keepsCreated (h : SlotAct t Hs s i x e) {p : Fin NPROC} (ht : t ≠ .proc p)
    (hp : (s.slot i).creator = some p) (hx : (s.slot i).WellFormed) :
    KeepsCreated (s.slot i) x := by
  obtain ⟨-, hused, -⟩ := hx
  cases h with
  | calm p' hl h =>
    obtain ⟨-, -, hpar, -⟩ := h
    exact ⟨rfl, rfl, hpar⟩
  | _ => constructor <;> grind

/-- Only a new process is resumed in a slot whose process has exited. -/
lemma dormant (h : SlotAct t Hs s i x e) (ht : t ≠ .proc i) (hx : (s.slot i).WellFormed)
    (hd : (s.slot i).Dormant) : x.Dormant := by
  obtain ⟨-, hused, -⟩ := hx
  cases h with
  | calm p' hl h =>
    obtain ⟨hstate, -, -, -⟩ := h
    grind [Slot.Dormant, Slot.Alive]
  | _ => grind [Slot.Dormant, Slot.Alive]

end SlotAct

/-! ### The history -/

/-- The status of a process that has exited and has not been reaped. -/
def zombieOf : List Record → Fin NPROC → Option Int32
  | [], _ => none
  | .exited p status :: hist, i => if p = i then some status else zombieOf hist i
  | .reaped c _ _ :: hist, i => if c = i then none else zombieOf hist i

/-- Whoever is reaped has exited since it was last reaped, with the same status. -/
def Matched : List Record → Prop
  | [] => True
  | .exited _ _ :: hist => Matched hist
  | .reaped c _ status :: hist => zombieOf hist c = some status ∧ Matched hist

/-! ### The invariants -/

/-- What holds always. -/
structure Inv (s : State H) : Prop where
  cpu_inj : ∀ c c' i, s.cpu c = some i → s.cpu c' = some i → c = c'
  cpu_of_hart : ∀ i c, (s.slot i).hart = some c → s.cpu c = some i
  wellFormed : ∀ i, (s.slot i).WellFormed
  init_alive : (s.slot s.initproc).Alive
  zombieOf_hist : ∀ i, zombieOf s.hist i =
    if (s.slot i).state = .zombie then some (s.slot i).xstate else none
  matched : Matched s.hist

/-- What holds while the lock of the process is free. -/
structure ProcFree (s : State H) (i : Fin NPROC) : Prop where
  drowsy : (s.slot i).drowsy = none
  running : (s.slot i).state = .running → (s.slot i).hart ≠ none
  offCpu : (s.slot i).state ≠ .running → OffCpu s i

/-- Every process that was started has a parent that lives, and no process sleeps in `wait` while
one of its children is a zombie, except those in `E`. -/
structure Family (E : Set (Fin NPROC)) (s : State H) : Prop where
  parent_alive : ∀ i, (s.slot i).Born → i ≠ s.initproc →
    ∃ q, (s.slot i).parent = some q ∧ (s.slot q).Alive
  not_pending : ∀ i q, (s.slot i).state = .zombie → (s.slot i).parent = some q → q ∉ E →
    ¬ (s.slot q).Pending (.proc q)

/-- What holds while `wait_lock` is free. -/
abbrev WaitFree (s : State H) : Prop := Family ∅ s

/-- What holds while the lock of condition `k` is free. -/
def CondFree (s : State H) (k : ℕ) : Prop :=
  s.cond k = true → ∀ i, ¬ (s.slot i).Pending (condChan k)

variable {i : Fin NPROC} {s : State H}

lemma ProcFree.setSlot (h : ProcFree s i) {x : Slot H} (hd : x.drowsy = (s.slot i).drowsy)
    (hh : x.hart = (s.slot i).hart) (hst : x.state = .running ↔ (s.slot i).state = .running) :
    ProcFree (s.setSlot i x) i := by
  obtain ⟨hdrowsy, hrun, hoff⟩ := h
  constructor <;>
    simp only [setSlot_slot, Function.update_self, OffCpu, setSlot_cpu, hd, hh, ne_eq, hst]
  · exact hdrowsy
  · exact hrun
  · exact hoff

lemma ProcFree.calm (h : ProcFree s i) {p : Proc} (hp : Calm (s.slot i).toProc p) :
    ProcFree (s.setSlot i { s.slot i with toProc := p }) i := by
  obtain ⟨hstate, -, -, -⟩ := hp
  exact h.setSlot rfl rfl (by grind)

lemma not_pending_wakeup (h : ProcFree s i) (chan : Chan) :
    ¬ ((s.slot i).map (·.wakeup chan)).Pending chan := by
  have hd := h.drowsy
  rintro (⟨hst, hch⟩ | hdr)
  · simp only [Slot.map, Proc.wakeup] at hst hch
    grind
  · simp [Slot.map, hd] at hdr

/-! ### Updates of the shared state -/

variable [DecidableEq H]

def Effect.apply (s : State H) : Effect H → State H
  | .none => s
  | .cpu h o => { s with cpu := Function.update s.cpu h o }
  | .log r => { s with hist := r :: s.hist }

/-- The updates of the shared state by the thread `t` with the locks `Hs`. -/
inductive Act (t : Thread H) (Hs : Set Lock) (s : State H) : State H → Prop
  | idle : Act t Hs s s
  | setTicks (n : UInt32) : Act t Hs s { s with ticks := n }
  | setNextpid (n : Int32) : Act t Hs s { s with nextpid := n }
  | setCond (k : ℕ) (b : Bool) (hl : .obj k ∈ Hs) :
      Act t Hs s { s with cond := Function.update s.cond k b }
  | slot (i : Fin NPROC) (x : Slot H) (e : Effect H) (h : SlotAct t Hs s i x e) :
      Act t Hs s (e.apply (s.setSlot i x))

@[simp] lemma apply_slot (s : State H) (e : Effect H) : (e.apply s).slot = s.slot := by
  cases e <;> rfl

@[simp] lemma apply_cond (s : State H) (e : Effect H) : (e.apply s).cond = s.cond := by
  cases e <;> rfl

@[simp] lemma apply_initproc (s : State H) (e : Effect H) :
    (e.apply s).initproc = s.initproc := by
  cases e <;> rfl

namespace Act

variable {t : Thread H} {Hs : Set Lock} {s' : State H}

/-- What happens to each slot. -/
lemma slot_cases (h : Act t Hs s s') (j : Fin NPROC) :
    s'.slot j = s.slot j ∨ ∃ e, SlotAct t Hs s j (s'.slot j) e := by
  cases h with
  | slot i x e hact =>
    by_cases hj : j = i
    · subst hj
      right
      exact ⟨e, by simpa using hact⟩
    · left
      simp [hj]
  | _ => exact .inl rfl

lemma pending (h : Act t Hs s s') {j : Fin NPROC} {chan : Chan} (hj : (s'.slot j).Pending chan) :
    (s.slot j).Pending chan ∨ ∀ l, chanLock chan = some l → l ∈ Hs := by
  obtain heq | ⟨e, hact⟩ := h.slot_cases j
  · rw [heq] at hj
    exact .inl hj
  · exact hact.pending hj

/-- Only the scheduler of a hart sets its `c->proc`. -/
lemma cpu_eq (h : Act t Hs s s') {c : H} (ht : t ≠ .sched c) : s'.cpu c = s.cpu c := by
  cases h with
  | slot i x e hact =>
    cases hact with
    | dispatch c' _ ht' | clear c' ht' =>
      have hc : c ≠ c' := fun hc => ht (hc ▸ ht')
      simp [Effect.apply, hc]
    | _ => rfl
  | _ => rfl

/-- Without its lock a process is neither dispatched nor taken off a hart. -/
lemma cpu_eq_some_iff (h : Act t Hs s s') {j : Fin NPROC} (hl : .proc j ∉ Hs) (c : H) :
    s'.cpu c = some j ↔ s.cpu c = some j := by
  cases h with
  | slot i x e hact =>
    cases hact with
    | dispatch c' _ _ hl' _ hcpu | clear c' _ hl' hcpu =>
      have hij : i ≠ j := fun hij => hl (hij ▸ hl')
      by_cases hc : c = c'
      · subst hc
        simp [Effect.apply, hcpu, hij]
      · simp [Effect.apply, hc]
    | _ => rfl
  | _ => rfl

lemma initproc_eq (h : Act t Hs s s') : s'.initproc = s.initproc := by
  cases h with
  | slot i x e hact => simp
  | _ => rfl

/-- A condition is changed under its lock. -/
lemma cond_eq (h : Act t Hs s s') {k : ℕ} (hl : .obj k ∉ Hs) : s'.cond k = s.cond k := by
  cases h with
  | setCond k' b hl' =>
    have hk : k ≠ k' := fun hk => hl (hk ▸ hl')
    simp [hk]
  | slot i x e hact => simp
  | _ => rfl

end Act

/-- What the lock of slot `i` protects is the same in both states. -/
structure Frozen (i : Fin NPROC) (s s' : State H) : Prop where
  state : (s'.slot i).state = (s.slot i).state
  chan : (s'.slot i).chan = (s.slot i).chan
  xstate : (s'.slot i).xstate = (s.slot i).xstate
  hart : (s'.slot i).hart = (s.slot i).hart
  fresh : (s'.slot i).fresh = (s.slot i).fresh
  drowsy : (s'.slot i).drowsy = (s.slot i).drowsy
  creator : (s'.slot i).creator = (s.slot i).creator
  cpu : ∀ c, s'.cpu c = some i ↔ s.cpu c = some i

lemma Act.frozen {t : Thread H} {Hs : Set Lock} {s' : State H} (h : Act t Hs s s')
    (hl : .proc i ∉ Hs) : Frozen i s s' := by
  obtain heq | ⟨e, hact⟩ := h.slot_cases i
  · constructor <;> first | exact h.cpu_eq_some_iff hl | rw [heq]
  · obtain ⟨-, -, par, heq⟩ := hact.of_not_locked hl
    constructor <;> first | exact h.cpu_eq_some_iff hl | rw [heq]

/-! ### The invariants are preserved -/

section

variable {t : Thread H} {Hs : Set Lock} {s' : State H}

lemma Inv.cpu_inj_act (hs : Inv s) (h : Act t Hs s s') :
    ∀ c c' i, s'.cpu c = some i → s'.cpu c' = some i → c = c' := by
  cases h with
  | slot i x e hact =>
    cases hact with
    | dispatch c₀ _ _ _ _ _ hoff =>
      intro c c' j hc hc'
      simp only [Effect.apply, setSlot_cpu, Function.update_apply] at hc hc'
      have := hs.cpu_inj c c' j
      have := hoff.2
      grind
    | clear c₀ =>
      intro c c' j hc hc'
      simp only [Effect.apply, setSlot_cpu, Function.update_apply] at hc hc'
      have := hs.cpu_inj c c' j
      grind
    | _ => exact hs.cpu_inj
  | _ => exact hs.cpu_inj

lemma Inv.cpu_of_hart_act (hs : Inv s) (h : Act t Hs s s') :
    ∀ i c, (s'.slot i).hart = some c → s'.cpu c = some i := by
  intro j c hj
  have hold := hs.cpu_of_hart j c
  cases h with
  | slot i x e hact =>
    simp only [apply_slot, setSlot_slot, Function.update_apply] at hj
    cases hact <;> simp only [Effect.apply, setSlot_cpu, Function.update_apply] <;> grind
  | _ => exact hold hj

lemma Inv.init_alive_act (hs : Inv s) (h : Act t Hs s s') : (s'.slot s'.initproc).Alive := by
  rw [h.initproc_eq]
  have hinit := hs.init_alive
  have hused := (hs.wellFormed s.initproc).used_iff
  obtain heq | ⟨e, hact⟩ := h.slot_cases s.initproc
  · rwa [heq]
  · generalize s'.slot s.initproc = x at hact
    cases hact with
    | calm p' hl h =>
      obtain ⟨hstate, -, -, -⟩ := h
      grind [Slot.Alive]
    | _ => grind [Slot.Alive]

lemma Inv.history_act (hs : Inv s) (h : Act t Hs s s') :
    (∀ i, zombieOf s'.hist i =
      if (s'.slot i).state = .zombie then some (s'.slot i).xstate else none) ∧
    Matched s'.hist := by
  have hz := hs.zombieOf_hist
  have hm := hs.matched
  cases h with
  | slot i x e hact =>
    have hused := (hs.wellFormed i).used_iff
    cases hact with
    | calm p' hl h =>
      obtain ⟨hstate, -, -, hx⟩ := h
      refine ⟨fun j => ?_, hm⟩
      simp only [setSlot_slot, Function.update_apply, Effect.apply, setSlot_hist, hz]
      grind
    | exit status p' _ _ _ hst _ hst' hx =>
      refine ⟨fun j => ?_, hm⟩
      simp only [setSlot_slot, Function.update_apply, Effect.apply, setSlot_hist,
        zombieOf, hz]
      grind
    | reap q p' _ _ _ hst _ _ hst' =>
      refine ⟨fun j => ?_, by simp [hz, hst], hm⟩
      simp only [setSlot_slot, Function.update_apply, Effect.apply, setSlot_hist,
        zombieOf, hz]
      grind
    | _ =>
      refine ⟨fun j => ?_, hm⟩
      simp only [setSlot_slot, Function.update_apply, Effect.apply, setSlot_hist, hz]
      grind
  | _ => exact ⟨hz, hm⟩

lemma Inv.act (hs : Inv s) (h : Act t Hs s s') : Inv s' where
  cpu_inj := hs.cpu_inj_act h
  cpu_of_hart := hs.cpu_of_hart_act h
  wellFormed i := by
    obtain heq | ⟨e, hact⟩ := h.slot_cases i
    · rw [heq]
      exact hs.wellFormed i
    · exact hact.wellFormed (hs.wellFormed i)
  init_alive := hs.init_alive_act h
  zombieOf_hist := (hs.history_act h).1
  matched := (hs.history_act h).2

lemma Act.keepsFamily (h : Act t Hs s s') (hs : Inv s) (hw : .wait ∉ Hs) (j : Fin NPROC) :
    SlotAct.KeepsFamily (s.slot j) (s'.slot j) := by
  obtain heq | ⟨e, hact⟩ := h.slot_cases j
  · rw [heq]
    exact ⟨rfl, Iff.rfl, id⟩
  · exact hact.keepsFamily hw (hs.wellFormed j)

lemma ProcFree.act (hi : ProcFree s i) (h : Act t Hs s s') (hl : .proc i ∉ Hs) : ProcFree s' i := by
  have hf := h.frozen hl
  refine ⟨hf.drowsy.trans hi.drowsy, fun hst => ?_, fun hst => ⟨?_, fun c hc => ?_⟩⟩
  · rw [hf.hart]
    exact hi.running (hf.state ▸ hst)
  · rw [hf.hart]
    exact (hi.offCpu (hf.state ▸ hst)).1
  · exact (hi.offCpu (hf.state ▸ hst)).2 c ((hf.cpu c).mp hc)

lemma Family.act {E : Set (Fin NPROC)} (hfree : Family E s) (hs : Inv s) (h : Act t Hs s s')
    (hw : .wait ∉ Hs) : Family E s' where
  parent_alive i hborn hi := by
    rw [h.initproc_eq] at hi
    have hparent := (h.keepsFamily hs hw i).parent
    have hold : (s.slot i).Born → ∃ q, (s'.slot i).parent = some q ∧ (s'.slot q).Alive := by
      intro hborn
      obtain ⟨q, hq, hqa⟩ := hfree.parent_alive i hborn hi
      exact ⟨q, hparent.trans hq, (h.keepsFamily hs hw q).alive hqa⟩
    obtain heq | ⟨e, hact⟩ := h.slot_cases i
    · exact hold (heq ▸ hborn)
    · obtain hborn | ⟨q, hq, hrun, -⟩ := hact.born hborn
      · exact hold hborn
      · exact ⟨q, hq, (h.keepsFamily hs hw q).alive (.inr (.inr hrun))⟩
  not_pending i q hz hq hE hpend := by
    have hk := h.keepsFamily hs hw i
    obtain hpend | hl := h.pending hpend
    · exact hfree.not_pending i q (hk.zombie.mp hz) (hk.parent ▸ hq) hE hpend
    · exact hw (hl .wait rfl)

lemma CondFree.act {k : ℕ} (hfree : CondFree s k) (h : Act t Hs s s') (hl : .obj k ∉ Hs) :
    CondFree s' k := by
  intro hk i hpend
  rw [h.cond_eq hl] at hk
  obtain hpend | hlocks := h.pending hpend
  · exact hfree hk i hpend
  · exact hl (hlocks (.obj k) rfl)

end

end Xv6.Sched
