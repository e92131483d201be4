import Xv6.Core.Machine
import Xv6.Log.Buffer

/-!
# Concurrent operations on the log

`begin_op`, `log_write`, `end_op` and the steps of `commit` of `kernel/log.c`, called by any number
of processes. Everything between an `acquire` and the matching `release` of `log.lock` is one step;
`commit` runs without the lock, so each of its loop iterations is a step of its own.
-/

namespace Xv6.Log

open Core

/-! ### The in-memory header -/

namespace Logheader

/-- The block numbers in use, the first `n` of the array. -/
def entries (lh : Logheader) : List ℕ := (List.range lh.n.toNat).map lh.block

/-- The index at which the loop of `log_write` stops for block `b`. -/
def slot (lh : Logheader) (b : ℕ) : ℕ :=
  ((List.range lh.n.toNat).find? fun i => lh.block i == b).getD lh.n.toNat

/-- What `log_write` does to the header. -/
def add (lh : Logheader) (b : ℕ) : Logheader where
  n := if (lh.slot b : ℤ) = lh.n then lh.n + 1 else lh.n
  block := Function.update lh.block (lh.slot b) b

lemma length_entries (lh : Logheader) : lh.entries.length = lh.n.toNat := by
  simp [entries]

variable {lh : Logheader} {b : ℕ}

lemma entries_of_n_eq_zero (h : lh.n = 0) : lh.entries = [] := by
  rw [entries, h]
  rfl

lemma slot_of_notMem (h : b ∉ lh.entries) : lh.slot b = lh.n.toNat := by
  have hnone : ((List.range lh.n.toNat).find? fun i => lh.block i == b) = none := by
    rw [List.find?_eq_none]
    intro i hi heq
    exact h (List.mem_map.mpr ⟨i, hi, by simpa using heq⟩)
  rw [slot, hnone, Option.getD_none]

lemma slot_of_mem (h : b ∈ lh.entries) : lh.slot b < lh.n.toNat ∧ lh.block (lh.slot b) = b := by
  obtain ⟨i, hi, rfl⟩ := List.mem_map.mp h
  cases hfind : (List.range lh.n.toNat).find? fun j => lh.block j == lh.block i with
  | none =>
    rw [List.find?_eq_none] at hfind
    exact absurd (by simp) (hfind i hi)
  | some j =>
    have hj := List.mem_of_find?_eq_some hfind
    have heq := List.find?_some hfind
    rw [slot, hfind, Option.getD_some]
    exact ⟨List.mem_range.mp hj, by simpa using heq⟩

/-- The loop runs to its end exactly for a block that is not listed yet. -/
lemma slot_eq_n_iff (h0 : 0 ≤ lh.n) (b : ℕ) : (lh.slot b : ℤ) = lh.n ↔ b ∉ lh.entries := by
  constructor
  · intro heq hmem
    have := (slot_of_mem hmem).1
    omega
  · intro h
    rw [slot_of_notMem h, Int.toNat_of_nonneg h0]

/-- Log absorption: a block that is already listed leaves the header as it is. -/
lemma add_of_mem (h0 : 0 ≤ lh.n) (h : b ∈ lh.entries) : lh.add b = lh := by
  have hne : (lh.slot b : ℤ) ≠ lh.n := fun heq => (slot_eq_n_iff h0 b).mp heq h
  rw [add, if_neg hne, Function.update_eq_self_iff.mpr (slot_of_mem h).2.symm]

lemma n_add_of_notMem (h0 : 0 ≤ lh.n) (h : b ∉ lh.entries) : (lh.add b).n = lh.n + 1 :=
  if_pos ((slot_eq_n_iff h0 b).mpr h)

lemma entries_add_of_notMem (h0 : 0 ≤ lh.n) (h : b ∉ lh.entries) :
    (lh.add b).entries = lh.entries ++ [b] := by
  have hn : (lh.n + 1).toNat = lh.n.toNat + 1 := by omega
  rw [entries, n_add_of_notMem h0 h, hn, List.range_succ, List.map_append]
  simp only [add, slot_of_notMem h, List.map_cons, List.map_nil, Function.update_self, entries]
  congr 1
  apply List.map_congr_left
  intro i hi
  exact Function.update_of_ne (List.mem_range.mp hi).ne ..

end Logheader

/-! ### States and steps -/

/-- The next thing `commit` does; `tail` is the loop variable of `write_log` and `install_trans`. -/
inductive CommitPc
  | test
  | writeLog (tail : ℕ)
  | writeHead
  | installTrans (tail : ℕ)
  | clear
  | eraseHead
  | finish
  deriving DecidableEq

/-- Where a process stands with respect to the log. -/
inductive Pc
  /-- Not in a file-system operation. -/
  | outside
  /-- In `begin_op`, about to acquire `log.lock` and test. -/
  | entering
  /-- In `begin_op`, asleep on `&log`. -/
  | asleep
  /-- Between `begin_op` and `end_op`. -/
  | inOp
  /-- In `end_op`, committing. -/
  | committing (c : CommitPc)
  deriving DecidableEq

/-- The panics of `log_write` and `end_op`. -/
inductive Panic
  | tooBig
  | outsideTrans
  | committing
  deriving DecidableEq

/-- A record of what happened, for stating what ends up in which commit: `committed` is the first
`write_head` of a commit. Operations are named by the process and the count of its operations so
far. -/
inductive Record (P : Type)
  | logged (p : P) (op : ℕ) (b : ℕ)
  | ended (p : P) (op : ℕ)
  | committed (blocks : List ℕ)
  deriving DecidableEq

/-- The state of `log`, the pins it holds on buffers, and the processes. The last three fields
only record what happened: how many operations each process began, the blocks its current one
logged, and the whole history, newest first. -/
structure Group (P : Type) where
  lh : Logheader
  outstanding : ℤ
  committing : Bool
  pinned : ℕ → ℤ
  pc : P → Pc
  opno : P → ℕ
  writes : P → Finset ℕ
  hist : List (Record P)

/-- The calls of the processes; `commit p` is the next step of the commit that `p` is running, and
`kill p` a wakeup of `p` that has nothing to do with the log. -/
inductive Call (P : Type)
  | enter (p : P)
  | beginOp (p : P)
  | logWrite (p : P) (b : ℕ)
  | endOp (p : P)
  | commit (p : P)
  | kill (p : P)

namespace Group

variable {P : Type} [DecidableEq P]

/-- After `initlog`, with the log empty. -/
def init : Group P where
  lh := ⟨0, fun _ => 0⟩
  outstanding := 0
  committing := false
  pinned _ := 0
  pc _ := .outside
  opno _ := 0
  writes _ := ∅
  hist := []

/-- The two tests of `begin_op` let an operation in. -/
def Admits (s : Group P) : Prop :=
  s.committing = false ∧ ¬ s.lh.n + (s.outstanding + 1) * MAXOPBLOCKS > LOGSIZE

instance (s : Group P) : Decidable s.Admits := inferInstanceAs (Decidable (_ ∧ _))

def setPc (s : Group P) (p : P) (c : Pc) : Group P := { s with pc := Function.update s.pc p c }

/-- `wakeup(&log)`. -/
def wakeup (s : Group P) : Group P :=
  { s with pc := fun q => if s.pc q = .asleep then .entering else s.pc q }

/-- One round of the loop of `begin_op`. -/
def beginOp (s : Group P) (p : P) : Group P :=
  if s.Admits then
    { s.setPc p .inOp with
      outstanding := s.outstanding + 1
      opno := Function.update s.opno p (s.opno p + 1)
      writes := Function.update s.writes p ∅ }
  else s.setPc p .asleep

/-- `log_write` of a buffer for block `b`, with `log.size = size`. -/
def logWrite (size : ℤ) (s : Group P) (p : P) (b : ℕ) : Except Panic (Group P) :=
  if s.lh.n ≥ LOGSIZE ∨ s.lh.n ≥ size - 1 then .error .tooBig
  else if s.outstanding < 1 then .error .outsideTrans
  else .ok { s with
    lh := s.lh.add b
    pinned := if (s.lh.slot b : ℤ) = s.lh.n then
      Function.update s.pinned b (s.pinned b + 1) else s.pinned
    writes := Function.update s.writes p (insert b (s.writes p))
    hist := .logged p (s.opno p) b :: s.hist }

/-- The first critical section of `end_op`. -/
def endOp (s : Group P) (p : P) : Except Panic (Group P) :=
  let s := { s with
    outstanding := s.outstanding - 1
    hist := .ended p (s.opno p) :: s.hist }
  if s.committing then .error .committing
  else if s.outstanding = 0 then
    .ok { s.setPc p (.committing .test) with committing := true }
  else .ok (s.wakeup.setPc p .outside)

/-- The next step of `commit`, and at the end the second critical section of `end_op`. -/
def commit (s : Group P) (p : P) : CommitPc → Group P
  | .test => s.setPc p (.committing (if s.lh.n > 0 then .writeLog 0 else .finish))
  | .writeLog tail =>
    s.setPc p (.committing (if (tail : ℤ) < s.lh.n then .writeLog (tail + 1) else .writeHead))
  | .writeHead =>
    { s.setPc p (.committing (.installTrans 0)) with
      hist := .committed s.lh.entries :: s.hist }
  | .installTrans tail =>
    if (tail : ℤ) < s.lh.n then
      { s.setPc p (.committing (.installTrans (tail + 1))) with
        -- bunpin
        pinned := Function.update s.pinned (s.lh.block tail) (s.pinned (s.lh.block tail) - 1) }
    else s.setPc p (.committing .clear)
  | .clear => { s.setPc p (.committing .eraseHead) with lh := { s.lh with n := 0 } }
  | .eraseHead => s.setPc p (.committing .finish)
  | .finish => { s.wakeup.setPc p .outside with committing := false }

/-- One step of the system. Processes bracket their writes: `log_write` and `end_op` are called
only between `begin_op` and `end_op`. -/
def step (size : ℤ) (s : Group P) : Call P → Option (Except Panic (Group P))
  | .enter p => if s.pc p = .outside then some (.ok (s.setPc p .entering)) else none
  | .beginOp p => if s.pc p = .entering then some (.ok (s.beginOp p)) else none
  | .logWrite p b => if s.pc p = .inOp then some (s.logWrite size p b) else none
  | .endOp p => if s.pc p = .inOp then some (s.endOp p) else none
  | .commit p =>
    match s.pc p with
    | .committing c => some (.ok (s.commit p c))
    | _ => none
  | .kill p => if s.pc p = .asleep then some (.ok (s.setPc p .entering)) else none

/-- The machine of the steps that do not panic. -/
def machine (P : Type) [DecidableEq P] (size : ℤ) : Machine (Group P) (Call P) :=
  Machine.ofStep (step size) (· = init)

end Group

end Xv6.Log
