import Xv6.Core.Machine
import Xv6.Proc.Basic

/-!
# The process table

The calls of `kernel/proc.c` that change the process table, one call at a time. `SlotStep` lists the
few things any of them can do to a slot.
-/

namespace Xv6

open Core

/-- The process table with the globals it goes with. -/
structure Table where
  proc : Fin NPROC → Proc
  initproc : Fin NPROC
  nextpid : Int32
  ticks : UInt32

/-- Whether the allocations of `fork` succeed: the trapframe, the page table, the copy. -/
structure ForkMem where
  trapframe : Bool
  pagetable : Bool
  copy : Bool

/-- A call by a running process `p`, a dispatch of slot `i`, a clock tick, or a wakeup. The `Bool`
of `wait` and `waitx` is `false` when the status cannot be copied to the user. A `wait` that goes to
sleep is called again when it wakes up. -/
inductive ProcCall
  | fork (p : Fin NPROC) (mem : ForkMem)
  | exec (p : Fin NPROC) (f : Program)
  | sbrk (p : Fin NPROC) (n : Int32) (mem : Bool)
  | setpriority (p : Fin NPROC) (newPriority pid : Int32)
  | wait (p : Fin NPROC) (copied : Bool)
  | waitx (p : Fin NPROC) (copied : Bool)
  | exit (p : Fin NPROC) (status : Int32)
  | kill (p : Fin NPROC) (pid : Int32)
  | sleep (p : Fin NPROC) (chan : Chan)
  | yield (p : Fin NPROC)
  | wakeup (p : Option (Fin NPROC)) (chan : Chan)
  | dispatch (i : Fin NPROC)
  | tick

variable {i : Fin NPROC}

namespace Table

/-! ### The calls -/

def setProc (s : Table) (i : Fin NPROC) (p : Proc) : Table :=
  { s with proc := Function.update s.proc i p }

@[simp]
lemma setProc_self (s : Table) (i : Fin NPROC) (p : Proc) : (s.setProc i p).proc i = p :=
  Function.update_self ..

@[simp]
lemma setProc_of_ne (s : Table) {j : Fin NPROC} (hij : j ≠ i) (p : Proc) :
    (s.setProc i p).proc j = s.proc j :=
  Function.update_of_ne hij ..

/-- The first slot of the table with the property `q`. -/
def first (s : Table) (q : Proc → Bool) : Option (Fin NPROC) :=
  (List.finRange NPROC).find? fun i => q (s.proc i)

/-- Find an unused slot and set it up; `none` when there is none or memory is short. -/
def allocproc (s : Table) (mem : ForkMem) : Option (Fin NPROC) × Table :=
  match s.first (·.state = .unused) with
  | none => (none, s)
  | some i =>
    let np := (s.proc i).allocproc s.nextpid s.ticks
    let s := { s with nextpid := s.nextpid + 1 }
    if mem.trapframe && mem.pagetable then (some i, s.setProc i np)
    else (none, s.setProc i np.freeproc)

def fork (s : Table) (p : Fin NPROC) (mem : ForkMem) : Table :=
  match s.allocproc mem with
  | (none, s) => s
  | (some i, s) =>
    if mem.copy then s.setProc i ((s.proc i).forked p (s.proc p).sz)
    else s.setProc i (s.proc i).freeproc

def exec (s : Table) (p : Fin NPROC) (f : Program) : Table :=
  match Xv6.exec f with
  | none => s
  | some sz => s.setProc p { s.proc p with sz := sz }

def sbrk (s : Table) (p : Fin NPROC) (n : Int32) (mem : Bool) : Table :=
  match growproc (s.proc p) n mem with
  | none => s
  | some sz => s.setProc p { s.proc p with sz := sz }

def yield (s : Table) (p : Fin NPROC) : Table := s.setProc p (s.proc p).yield

def sleep (s : Table) (p : Fin NPROC) (chan : Chan) : Table := s.setProc p ((s.proc p).sleep chan)

/-- Change the priority of the process `pid`; the caller yields if that process became more
urgent. -/
def setpriority (s : Table) (p : Fin NPROC) (newPriority pid : Int32) : Table :=
  match s.first (·.pid = pid) with
  | none => s
  | some i =>
    let s' := s.setProc i ((s.proc i).setpriority newPriority)
    if newPriority < (s.proc i).prevPriority then s'.yield p else s'

/-- `wakeup(chan)` called by `p`, or by an interrupt outside of any process. -/
def wakeup (s : Table) (p : Option (Fin NPROC)) (chan : Chan) : Table :=
  { s with proc := fun i => if some i = p then s.proc i else (s.proc i).wakeup chan }

/-- Pass the children of `p` to init, and wake it up if there are any. -/
def reparent (s : Table) (p : Fin NPROC) : Table :=
  let s' := { s with proc := fun i => (s.proc i).reparent p s.initproc }
  if (s.first (·.parent = some p)).isSome then s'.wakeup (some p) (.proc s.initproc) else s'

def exit (s : Table) (p : Fin NPROC) (status : Int32) : Table :=
  let s := s.reparent p
  let s := s.wakeup (some p) (.ofProc (s.proc p).parent)
  s.setProc p ((s.proc p).exit status s.ticks)

/-- The child that the loops of `wait` and `waitx` stop at. -/
def zombieChild (s : Table) (p : Fin NPROC) : Option (Fin NPROC) :=
  s.first fun np => np.parent = some p && np.state = .zombie

def wait (s : Table) (p : Fin NPROC) (copied : Bool) : Table :=
  match s.zombieChild p with
  | some i => if copied then s.setProc i (s.proc i).freeproc else s
  | none =>
    if (s.first (·.parent = some p)).isNone || (s.proc p).killed then s else s.sleep p (.proc p)

/-- The times that `waitx` stores, if it finds a zombie. -/
def waitxTimes (s : Table) (p : Fin NPROC) : Option Proc.Times :=
  (s.zombieChild p).map fun i => (s.proc i).times

/-- `waitx` changes the table as `wait` does. -/
def waitx (s : Table) (p : Fin NPROC) (copied : Bool) : Table := s.wait p copied

def kill (s : Table) (pid : Int32) : Table :=
  match s.first (·.pid = pid) with
  | none => s
  | some i => s.setProc i (s.proc i).kill

/-- `clockintr`. -/
def tick (s : Table) : Table :=
  let s := { s with ticks := s.ticks + 1, proc := fun i => (s.proc i).updateTime }
  s.wakeup none .ticks

/-! ### Runs -/

/-- One call; the caller has to be running, and init does not exit. -/
def step (s : Table) : ProcCall → Option Table
  | .fork p mem => if (s.proc p).state = .running then some (s.fork p mem) else none
  | .exec p f => if (s.proc p).state = .running then some (s.exec p f) else none
  | .sbrk p n mem => if (s.proc p).state = .running then some (s.sbrk p n mem) else none
  | .setpriority p v pid =>
    if (s.proc p).state = .running then some (s.setpriority p v pid) else none
  | .wait p copied => if (s.proc p).state = .running then some (s.wait p copied) else none
  | .waitx p copied => if (s.proc p).state = .running then some (s.waitx p copied) else none
  | .exit p status =>
    if (s.proc p).state = .running ∧ p ≠ s.initproc then some (s.exit p status) else none
  | .kill p pid => if (s.proc p).state = .running then some (s.kill pid) else none
  | .sleep p chan => if (s.proc p).state = .running then some (s.sleep p chan) else none
  | .yield p => if (s.proc p).state = .running then some (s.yield p) else none
  | .wakeup p chan => some (s.wakeup p chan)
  | .dispatch i =>
    if (s.proc i).state = .runnable then some (s.setProc i ((s.proc i).dispatch s.ticks)) else none
  | .tick => some s.tick

/-- What `userinit` leaves: `init` in slot `0`, ready to run in one page. -/
def boot (ticks : UInt32) : Table where
  proc i :=
    if i = 0 then
      { Proc.zero.allocproc 1 ticks with sz := 4096, state := .runnable }
    else Proc.zero
  initproc := 0
  nextpid := 2
  ticks := ticks

/-- The runs of the process table from the boot of the system. -/
def machine : Machine Table ProcCall where
  init s := ∃ ticks, s = boot ticks
  next := step

end Table

/-! ### Moving a process between states -/

/-- The slot keeps its size, limits and counters, and stays free if it was. -/
structure Proc.Moved (p p' : Proc) : Prop where
  unused_iff : p'.state = .unused ↔ p.state = .unused
  sz : p'.sz = p.sz
  maxMem : p'.maxMem = p.maxMem
  priority : p'.priority = p.priority
  runTime : p'.runTime = p.runTime
  totalRunTime : p'.totalRunTime = p.totalRunTime
  life : p'.life = p.life

namespace Proc.Moved

variable {p : Proc}

lemma refl (p : Proc) : Moved p p := ⟨Iff.rfl, rfl, rfl, rfl, rfl, rfl, rfl⟩

/-- A process that is not free changes to a state that is not free. -/
lemma state {st : ProcState} (hp : p.state ≠ .unused) (hst : st ≠ .unused) {chan : Chan}
    {killed : Bool} {xstate : Int32} {exitTime : UInt64} :
    Moved p { p with
      state := st
      chan := chan
      killed := killed
      xstate := xstate
      exitTime := exitTime } :=
  ⟨⟨fun h => absurd h hst, fun h => absurd h hp⟩, rfl, rfl, rfl, rfl, rfl, rfl⟩

lemma yield (hp : p.state = .running) : Moved p p.yield := .state (by simp [hp]) (by simp)

lemma sleep (hp : p.state = .running) (chan : Chan) : Moved p (p.sleep chan) :=
  .state (by simp [hp]) (by simp)

lemma exit (hp : p.state = .running) (status : Int32) (ticks : UInt32) :
    Moved p (p.exit status ticks) :=
  .state (by simp [hp]) (by simp)

lemma wakeup (p : Proc) (chan : Chan) : Moved p (p.wakeup chan) := by
  unfold Proc.wakeup
  split_ifs with hsleep
  · exact .state (by simp [hsleep.1]) (by simp)
  · exact .refl p

lemma reparent (p : Proc) (dying initproc : Fin NPROC) : Moved p (p.reparent dying initproc) := by
  unfold Proc.reparent
  split_ifs
  · exact ⟨Iff.rfl, rfl, rfl, rfl, rfl, rfl, rfl⟩
  · exact .refl p

lemma kill (p : Proc) : Moved p p.kill := by
  refine ⟨?_, rfl, rfl, rfl, rfl, rfl, rfl⟩
  simp only [Proc.kill]
  split_ifs with hsleep
  · simp [hsleep]
  · rfl

end Proc.Moved

/-! ### What a call does to a slot -/

namespace Table

/-- The ways in which the call `e`, made in the state `s`, changes a slot `p`. -/
inductive SlotStep (s : Table) (e : ProcCall) (p : Proc) : Proc → Prop
  | allocproc (pid : Int32) : p.state = .unused → SlotStep s e p (p.allocproc pid s.ticks)
  | freeproc : SlotStep s e p p.freeproc
  | forked (q : Fin NPROC) : (s.proc q).state = .running → p.state = .used →
      SlotStep s e p (p.forked q (s.proc q).sz)
  | exec (q : Fin NPROC) (f : Program) (sz : UInt64) : e = .exec q f → p = s.proc q →
      p.state = .running → Xv6.exec f = some sz → SlotStep s e p { p with sz := sz }
  | growproc (n : Int32) (mem : Bool) (sz : UInt64) : growproc p n mem = some sz →
      p.state = .running → SlotStep s e p { p with sz := sz }
  | setpriority (q i : Fin NPROC) (v pid : Int32) : e = .setpriority q v pid →
      s.first (·.pid = pid) = some i → p = s.proc i → SlotStep s e p (p.setpriority v)
  | yield : p.state = .running → SlotStep s e p p.yield
  | sleep (chan : Chan) : p.state = .running → SlotStep s e p (p.sleep chan)
  | wakeup (chan : Chan) : SlotStep s e p (p.wakeup chan)
  | reparent (q : Fin NPROC) : SlotStep s e p (p.reparent q s.initproc)
  | exit (status : Int32) : p.state = .running → SlotStep s e p (p.exit status s.ticks)
  | kill (q i : Fin NPROC) (pid : Int32) : e = .kill q pid → s.first (·.pid = pid) = some i →
      p = s.proc i → SlotStep s e p p.kill
  | dispatch : p.state = .runnable → SlotStep s e p (p.dispatch s.ticks)
  | updateTime : SlotStep s e p p.updateTime

/-- What a call does to a slot, in any number of steps. -/
abbrev SlotSteps (s : Table) (e : ProcCall) : Proc → Proc → Prop :=
  Relation.ReflTransGen (SlotStep s e)

variable {s s' : Table} {e : ProcCall}

lemma first_eq_some {q : Proc → Bool} (h : s.first q = some i) : q (s.proc i) = true :=
  List.find?_some (p := fun i => q (s.proc i)) h

section

variable {f : Fin NPROC → Proc} (h : ∀ i, SlotSteps s e (s.proc i) (f i))
include h

/-- A change of one slot. -/
lemma SlotSteps.update {q p : Proc} (hq : f i = q) (hp : SlotStep s e q p) (j : Fin NPROC) :
    SlotSteps s e (s.proc j) (Function.update f i p j) := by
  by_cases hij : j = i
  · subst hij
    subst hq
    rw [Function.update_self]
    exact (h j).tail hp
  · rw [Function.update_of_ne hij]
    exact h j

lemma SlotSteps.wakeup (p : Option (Fin NPROC)) (chan : Chan) (j : Fin NPROC) :
    SlotSteps s e (s.proc j) (if some j = p then f j else (f j).wakeup chan) := by
  split_ifs
  · exact h j
  · exact (h j).tail (.wakeup chan)

end

variable {p : Fin NPROC}

lemma fork_slots (hp : (s.proc p).state = .running) (mem : ForkMem) (j : Fin NPROC) :
    SlotSteps s e (s.proc j) ((s.fork p mem).proc j) := by
  unfold Table.fork Table.allocproc
  cases hi : s.first (·.state = .unused) with
  | none => exact .refl
  | some i =>
    have hunused : (s.proc i).state = .unused := by simpa using first_eq_some hi
    -- the table after `allocproc` has set up the slot
    let np := (s.proc i).allocproc s.nextpid s.ticks
    have halloc : ∀ j, SlotSteps s e (s.proc j) (Function.update s.proc i np j) :=
      SlotSteps.update (fun _ => .refl) rfl (.allocproc s.nextpid hunused)
    have hnp : Function.update s.proc i np i = np := Function.update_self ..
    have hparent : Function.update s.proc i np p = s.proc p := by
      apply Function.update_of_ne
      rintro rfl
      simp [hp] at hunused
    dsimp only
    cases hmem : mem.trapframe && mem.pagetable with
    | false =>
      have := SlotSteps.update halloc hnp .freeproc j
      rw [Function.update_idem] at this
      exact this
    | true =>
      cases hcopy : mem.copy with
      | true =>
        have hforked : SlotStep s e (Function.update s.proc i np i)
            ((Function.update s.proc i np i).forked p (Function.update s.proc i np p).sz) := by
          rw [hparent, hnp]
          exact .forked p hp rfl
        exact SlotSteps.update halloc rfl hforked j
      | false => exact SlotSteps.update halloc rfl .freeproc j

lemma setpriority_slots {v pid : Int32} (hp : (s.proc p).state = .running)
    (he : e = .setpriority p v pid) (j : Fin NPROC) :
    SlotSteps s e (s.proc j) ((s.setpriority p v pid).proc j) := by
  unfold Table.setpriority
  cases hi : s.first (·.pid = pid) with
  | none => exact .refl
  | some i =>
    have hset : ∀ j, SlotSteps s e (s.proc j)
        (Function.update s.proc i ((s.proc i).setpriority v) j) :=
      SlotSteps.update (fun _ => .refl) rfl (.setpriority p i v pid he hi rfl)
    dsimp only
    split_ifs
    · refine SlotSteps.update hset rfl (.yield ?_) j
      rw [Function.update_apply]
      split_ifs with hpi
      · rw [← hpi]
        exact hp
      · exact hp
    · exact hset j

lemma reparent_slots (p j : Fin NPROC) : SlotSteps s e (s.proc j) ((s.reparent p).proc j) := by
  have hrep : ∀ j, SlotSteps s e (s.proc j) ((s.proc j).reparent p s.initproc) :=
    fun j => .single (.reparent p)
  unfold Table.reparent
  dsimp only
  split_ifs
  · exact SlotSteps.wakeup hrep _ _ j
  · exact hrep j

/-- The caller of `reparent` and `wakeup` stays as it is but for its parent. -/
lemma reparent_self_state (p : Fin NPROC) : ((s.reparent p).proc p).state = (s.proc p).state := by
  have h : ((s.proc p).reparent p s.initproc).state = (s.proc p).state := by
    unfold Proc.reparent
    split_ifs <;> rfl
  unfold Table.reparent Table.wakeup
  dsimp only
  split_ifs
  · simpa using h
  · exact h

lemma exit_slots (hp : (s.proc p).state = .running) (status : Int32) (j : Fin NPROC) :
    SlotSteps s e (s.proc j) ((s.exit p status).proc j) := by
  have hwake := SlotSteps.wakeup (reparent_slots (s := s) (e := e) p) (some p)
    (.ofProc ((s.reparent p).proc p).parent)
  have hticks : (s.reparent p).ticks = s.ticks := by
    unfold Table.reparent
    dsimp only
    split_ifs <;> rfl
  have hstep := SlotSteps.update hwake (if_pos rfl)
    (.exit status (by rw [reparent_self_state, hp])) j
  unfold Table.exit
  simpa [setProc, Table.wakeup, hticks] using hstep

lemma wait_slots (hp : (s.proc p).state = .running) (copied : Bool) (j : Fin NPROC) :
    SlotSteps s e (s.proc j) ((s.wait p copied).proc j) := by
  unfold Table.wait
  cases s.zombieChild p with
  | some i =>
    dsimp only
    split_ifs
    · exact SlotSteps.update (fun _ => .refl) rfl .freeproc j
    · exact .refl
  | none =>
    dsimp only
    split_ifs
    · exact .refl
    · exact SlotSteps.update (fun _ => .refl) rfl (.sleep _ hp) j

/-- Every call changes the slots in the ways of `SlotStep` only. -/
lemma step_slots (hstep : s.step e = some s') (j : Fin NPROC) :
    SlotSteps s e (s.proc j) (s'.proc j) := by
  have hrefl : ∀ i, SlotSteps s e (s.proc i) (s.proc i) := fun _ => .refl
  cases e with
  | fork p mem =>
    simp only [step, Option.ite_some_none_eq_some] at hstep
    obtain ⟨hp, rfl⟩ := hstep
    exact fork_slots hp mem j
  | exec p f =>
    simp only [step, Option.ite_some_none_eq_some] at hstep
    obtain ⟨hp, rfl⟩ := hstep
    unfold Table.exec
    cases hf : Xv6.exec f with
    | none => exact .refl
    | some sz => exact SlotSteps.update hrefl rfl (.exec p f sz rfl rfl hp hf) j
  | sbrk p n mem =>
    simp only [step, Option.ite_some_none_eq_some] at hstep
    obtain ⟨hp, rfl⟩ := hstep
    unfold Table.sbrk
    cases hgrow : growproc (s.proc p) n mem with
    | none => exact .refl
    | some sz => exact SlotSteps.update hrefl rfl (.growproc n mem sz hgrow hp) j
  | setpriority p v pid =>
    simp only [step, Option.ite_some_none_eq_some] at hstep
    obtain ⟨hp, rfl⟩ := hstep
    exact setpriority_slots hp rfl j
  | wait p copied | waitx p copied =>
    simp only [step, Option.ite_some_none_eq_some] at hstep
    obtain ⟨hp, rfl⟩ := hstep
    exact wait_slots hp copied j
  | exit p status =>
    simp only [step, Option.ite_some_none_eq_some] at hstep
    obtain ⟨⟨hp, -⟩, rfl⟩ := hstep
    exact exit_slots hp status j
  | kill p pid =>
    simp only [step, Option.ite_some_none_eq_some] at hstep
    obtain ⟨-, rfl⟩ := hstep
    unfold Table.kill
    cases hi : s.first (·.pid = pid) with
    | none => exact .refl
    | some i => exact SlotSteps.update hrefl rfl (.kill p i pid rfl hi rfl) j
  | sleep p chan =>
    simp only [step, Option.ite_some_none_eq_some] at hstep
    obtain ⟨hp, rfl⟩ := hstep
    exact SlotSteps.update hrefl rfl (.sleep chan hp) j
  | yield p =>
    simp only [step, Option.ite_some_none_eq_some] at hstep
    obtain ⟨hp, rfl⟩ := hstep
    exact SlotSteps.update hrefl rfl (.yield hp) j
  | wakeup p chan =>
    obtain rfl : s.wakeup p chan = s' := by simpa [step] using hstep
    exact SlotSteps.wakeup hrefl p chan j
  | dispatch i =>
    simp only [step, Option.ite_some_none_eq_some] at hstep
    obtain ⟨hi, rfl⟩ := hstep
    exact SlotSteps.update hrefl rfl (.dispatch hi) j
  | tick =>
    obtain rfl : s.tick = s' := by simpa [step] using hstep
    exact SlotSteps.wakeup (fun i => .single .updateTime) none _ j

/-- A property of single slots that all slot steps of a call keep survives the call. -/
lemma forall_slots_of_step {I : Proc → Prop} (hs : ∀ i, I (s.proc i)) (hstep : s.step e = some s')
    (hI : ∀ p p', SlotStep s e p p' → I p → I p') (i : Fin NPROC) : I (s'.proc i) := by
  have hslots := step_slots hstep i
  generalize s'.proc i = p' at hslots ⊢
  induction hslots with
  | refl => exact hs i
  | tail _ hlast ih => exact hI _ _ hlast ih

end Table

end Xv6
