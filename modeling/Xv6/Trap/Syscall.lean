import Mathlib.Tactic

/-!
# System call dispatch

`syscall` of `kernel/syscall.c` with its three tables. The number of the call is the low half of
`a7` as an `int`. An index outside of a table is a fault, since what is read there is not
determined. What the calls do, and what is printed, is left open.
-/

namespace Xv6.Trap

/-- The system calls. -/
inductive Sys
  | fork | exit | wait | pipe | read | kill | exec | fstat | chdir | dup | getpid | sbrk | sleep
  | uptime | open | write | mknod | unlink | link | mkdir | close | trace | setpriority | waitx
  deriving DecidableEq, Repr

/-- The table `syscalls`, by the numbers of `kernel/syscall.h`. -/
def syscalls : List (Option Sys) :=
  [none, some .fork, some .exit, some .wait, some .pipe, some .read, some .kill, some .exec,
    some .fstat, some .chdir, some .dup, some .getpid, some .sbrk, some .sleep, some .uptime,
    some .open, some .write, some .mknod, some .unlink, some .link, some .mkdir, some .close,
    some .trace, some .setpriority, some .waitx]

/-- The table `syscall_names`. -/
def syscallNames : List (Option String) :=
  [none, some "fork", some "exit", some "wait", some "pipe", some "read", some "kill", some "exec",
    some "fstat", some "chdir", some "dup", some "getpid", some "sbrk", some "sleep", some "uptime",
    some "open", some "write", some "mknod", some "unlink", some "link", some "mkdir", some "close",
    some "trace", some "setpriority", some "waitx"]

/-- The table `syscall_num`: how many arguments a call has. -/
def syscallNum : List ℕ :=
  [0, 0, 1, 1, 1, 3, 1, 2, 2, 1, 1, 0, 1, 1, 0, 2, 3, 3, 1, 2, 1, 1, 1, 2, 3]

/-- The tables of `syscall`. -/
inductive TableName
  | syscallNum
  | syscalls
  | syscallNames
  deriving DecidableEq, Repr

/-- How `syscall` goes wrong. -/
inductive Fault
  /-- An index is outside of a table. -/
  | outOfBounds (t : TableName)
  /-- `panic("argraw")` -/
  | argraw
  deriving DecidableEq, Repr

/-- The user registers that `syscall` looks at, as the trapframe has them. -/
structure Trapframe where
  a0 : UInt64
  a1 : UInt64
  a2 : UInt64
  a3 : UInt64
  a4 : UInt64
  a5 : UInt64
  a6 : UInt64
  a7 : UInt64
  deriving DecidableEq

/-- The calling process, with the rest of the kernel. -/
structure State (κ : Type) where
  trapframe : Trapframe
  mask : Int32
  kernel : κ

variable {κ : Type}

/-- Read a table. -/
def index {α : Type} (name : TableName) (t : List α) (n : ℤ) : Except Fault α :=
  match t[n.toNat]? with
  | some a => if 0 ≤ n then .ok a else .error (.outOfBounds name)
  | none => .error (.outOfBounds name)

def argraw (tf : Trapframe) : ℕ → Except Fault UInt64
  | 0 => .ok tf.a0
  | 1 => .ok tf.a1
  | 2 => .ok tf.a2
  | 3 => .ok tf.a3
  | 4 => .ok tf.a4
  | 5 => .ok tf.a5
  | _ => .error .argraw

/-- The return value goes to `a0`. -/
def State.setA0 (s : State κ) (r : UInt64) : State κ :=
  { s with trapframe := { s.trapframe with a0 := r } }

/-- `int num = p->trapframe->a7`. -/
def State.num (s : State κ) : ℤ := s.trapframe.a7.toUInt32.toInt32.toInt

/-- What `syscall` reads to print a traced call. -/
def trace (s : State κ) (num : ℤ) : Except Fault PUnit :=
  if (s.mask >>> Int32.ofInt num) &&& 1 ≠ 0 then do
    let _ ← index .syscallNames syscallNames num
    let _ ← index .syscallNum syscallNum num
    let _ ← argraw s.trapframe 0
    return ⟨⟩
  else
    return ⟨⟩

/-- `call f` is what the system call `f` does, with its return value. -/
def syscall (call : Sys → State κ → UInt64 × State κ) (s : State κ) : Except Fault (State κ) := do
  let numArgs ← index .syscallNum syscallNum s.num
  let _ ← (List.range numArgs).mapM (argraw s.trapframe)
  if 0 < s.num ∧ s.num < syscalls.length then
    match ← index .syscalls syscalls s.num with
    | some f =>
      let (r, s') := call f s
      trace (s'.setA0 r) s.num
      return s'.setA0 r
    | none => return s.setA0 (-1)
  else
    return s.setA0 (-1)

/-- The number is that of a system call. -/
def Assigned (num : ℤ) : Prop := ∃ f, 0 ≤ num ∧ syscalls[num.toNat]? = some (some f)

/-- `syscall` reads its tables within their bounds and does not panic, and a number that is not
assigned changes nothing but the return value. -/
def Dispatched (s : State κ) : Prop :=
  ∀ call : Sys → State κ → UInt64 × State κ, (∃ s', syscall call s = .ok s') ∧
    (¬ Assigned s.num → syscall call s = .ok (s.setA0 (-1)))

variable {s : State κ}

/-! ### Tables -/

lemma index_of_lt {α : Type} (name : TableName) {t : List α} {n : ℤ} (h0 : 0 ≤ n)
    (hn : n < t.length) : ∃ a, t[n.toNat]? = some a ∧ index name t n = .ok a := by
  have hlt : n.toNat < t.length := by omega
  refine ⟨t[n.toNat], List.getElem?_eq_getElem hlt, ?_⟩
  rw [index, List.getElem?_eq_getElem hlt]
  exact if_pos h0

lemma index_of_not_lt {α : Type} (name : TableName) {t : List α} {n : ℤ}
    (h : ¬(0 ≤ n ∧ n < t.length)) : index name t n = .error (.outOfBounds name) := by
  rw [index]
  split
  · next a ha =>
    have hlt : n.toNat < t.length := (List.getElem?_eq_some_iff.mp ha).1
    exact if_neg fun h0 => h ⟨h0, by omega⟩
  · rfl

/-- No call has more arguments than there are registers for. -/
lemma syscallNum_le : ∀ k ∈ syscallNum, k ≤ 3 := by decide

/-- Reading the arguments does not panic. -/
lemma argraw_mapM_ok (tf : Trapframe) {k : ℕ} (hk : k ≤ 3) :
    ∃ arr, (List.range k).mapM (argraw tf) = .ok arr := by
  interval_cases k
  · exact ⟨_, rfl⟩
  · exact ⟨_, rfl⟩
  · exact ⟨_, rfl⟩
  · exact ⟨_, rfl⟩

lemma trace_ok {num : ℤ} (h0 : 0 ≤ num) (hn : num < 25) : trace s num = .ok ⟨⟩ := by
  rw [trace]
  split
  · obtain ⟨name, -, hname⟩ := index_of_lt .syscallNames (t := syscallNames) h0 hn
    obtain ⟨k, -, hk⟩ := index_of_lt .syscallNum (t := syscallNum) h0 hn
    rw [hname, hk]
    rfl
  · rfl

/-! ### Dispatch -/

/-- For a number within the tables, the outcome depends on whether it is assigned only. -/
lemma syscall_of_lt (call : Sys → State κ → UInt64 × State κ) (h0 : 0 ≤ s.num) (hn : s.num < 25) :
    (∃ f, syscalls[s.num.toNat]? = some (some f) ∧
        syscall call s = .ok ((call f s).2.setA0 (call f s).1)) ∨
      (¬ Assigned s.num ∧ syscall call s = .ok (s.setA0 (-1))) := by
  obtain ⟨k, hk, hindex⟩ := index_of_lt .syscallNum (t := syscallNum) h0 hn
  obtain ⟨arr, harr⟩ := argraw_mapM_ok s.trapframe (syscallNum_le k (List.mem_of_getElem? hk))
  obtain ⟨f, hf, hcall⟩ := index_of_lt .syscalls (t := syscalls) h0 hn
  have hunassigned : f = none → ¬ Assigned s.num := by
    rintro rfl ⟨g, -, hg⟩
    rw [hf] at hg
    cases hg
  rw [syscall, hindex]
  simp only [bind, Except.bind, harr, pure, Except.pure]
  split
  · rw [hcall]
    cases f with
    | none => exact .inr ⟨hunassigned rfl, rfl⟩
    | some f =>
      refine .inl ⟨f, hf, ?_⟩
      simp only [trace_ok h0 hn]
  · next hout =>
    -- the number is 0, which is not assigned
    have hzero : s.num = 0 := by
      have hlen : (syscalls.length : ℤ) = 25 := rfl
      omega
    refine .inr ⟨?_, rfl⟩
    rw [hzero]
    rintro ⟨f, -, hf⟩
    cases hf

/-- Dispatch is safe exactly if the number lies within the tables: `syscall_num` is read before the
number is checked. -/
theorem dispatched_iff (s : State κ) : Dispatched s ↔ 0 ≤ s.num ∧ s.num < 25 := by
  constructor
  · intro h
    by_contra hout
    obtain ⟨⟨s', hs'⟩, -⟩ := h fun _ s => (0, s)
    have hindex := index_of_not_lt .syscallNum (t := syscallNum) hout
    rw [syscall, hindex] at hs'
    cases hs'
  · rintro ⟨h0, hn⟩ call
    rcases syscall_of_lt call h0 hn with ⟨f, hf, hs'⟩ | ⟨hout, hs'⟩
    · exact ⟨⟨_, hs'⟩, fun hout => absurd ⟨f, h0, hf⟩ hout⟩
    · exact ⟨⟨_, hs'⟩, fun _ => hs'⟩

/-- A user process with only `a7` set. -/
def userCall (a7 : UInt64) : State Unit := ⟨⟨0, 0, 0, 0, 0, 0, 0, a7⟩, 0, ()⟩

/-- The numbers -1 and 25 make `syscall` read outside of `syscall_num`. -/
theorem syscall_outOfBounds :
    (userCall 0xffffffff).num = -1 ∧ (userCall 25).num = 25 ∧
      (∀ call, syscall call (userCall 0xffffffff) = .error (.outOfBounds .syscallNum)) ∧
      (∀ call, syscall call (userCall 25) = .error (.outOfBounds .syscallNum)) ∧
      ¬ Dispatched (userCall 0xffffffff) := by
  refine ⟨by decide, by decide, fun _ => rfl, fun _ => rfl, ?_⟩
  intro h
  obtain ⟨⟨s', hs'⟩, -⟩ := h fun _ s => (0, s)
  cases hs'

end Xv6.Trap
