import Mathlib.Data.Set.Insert
import Xv6.Core.Machine

/-!
# Threads with spinlocks

Programs of threads that share a state and synchronise by spinlocks. A thread can be suspended: a
context switch hands one lock over to another thread, which goes on, and the first thread goes on
when the lock is handed back to it. Between any two instructions of a thread, the others may run.
-/

namespace Core

/-- The types a system of threads is made of. `Choice` are the outcomes of what is left open in the
programs, `Label` the entry points of loops that do not end. -/
structure Sig where
  State : Type
  Thread : Type
  Lock : Type
  Choice : Type
  Panic : Type
  Label : Type

/-- Programs that end with a result in `α`, if they end. -/
inductive Prog (S : Sig) (α : Type)
  | ret (a : α)
  | acquire (l : S.Lock) (k : Prog S α)
  | release (l : S.Lock) (k : Prog S α)
  /-- Update the shared state by `f`, and go on with the state before the update at hand. -/
  | act (f : S.State → S.State) (k : S.State → Prog S α)
  | choose (k : S.Choice → Prog S α)
  /-- Update the shared state by `f`, hand the lock to `target`, and wait until it is back. -/
  | swtch (l : S.Lock) (target : S.State → S.Thread) (f : S.State → S.State) (k : Prog S α)
  | goto (e : S.Label)
  | panic (m : S.Panic)

namespace Prog

variable {S : Sig} {α β : Type}

/-- Sequential composition. -/
def bind : Prog S α → (α → Prog S β) → Prog S β
  | .ret a, g => g a
  | .acquire l k, g => .acquire l (k.bind g)
  | .release l k, g => .release l (k.bind g)
  | .act f k, g => .act f fun s => (k s).bind g
  | .choose k, g => .choose fun c => (k c).bind g
  | .swtch l target f k, g => .swtch l target f (k.bind g)
  | .goto e, _ => .goto e
  | .panic m, _ => .panic m

instance : Monad (Prog S) where
  pure := .ret
  bind := bind

/-- Acquire the lock `l`. -/
def lock (l : S.Lock) : Prog S Unit := .acquire l (.ret ())

/-- Release the lock `l`. -/
def unlock (l : S.Lock) : Prog S Unit := .release l (.ret ())

/-- Update the shared state. -/
def modify (f : S.State → S.State) : Prog S Unit := .act f fun _ => .ret ()

/-- Read from the shared state. -/
def read (g : S.State → α) : Prog S α := .act id fun s => .ret (g s)

/-- Read from the shared state and update it in one instruction. -/
def update (f : S.State → S.State) (g : S.State → α) : Prog S α := .act f fun s => .ret (g s)

/-- What is left open. -/
def choice (g : S.Choice → α) : Prog S α := .choose fun c => .ret (g c)

end Prog

/-- The code at the labels, and which threads are suspended in which states: `awaits s t` is the
lock that has to be handed to `t`. -/
structure Threads (S : Sig) where
  code : S.Label → Prog S Empty
  awaits : S.State → S.Thread → Option S.Lock

/-- A configuration: the shared state, the holders of the locks, and what the threads have yet to
do. -/
structure Conf (S : Sig) where
  state : S.State
  owner : S.Lock → Option S.Thread
  prog : S.Thread → Prog S Empty

namespace Threads

variable {S : Sig} [DecidableEq S.Thread] [DecidableEq S.Lock]

/-- The next instruction of the thread `t`, which is not suspended. -/
def instr (Y : Threads S) (c : Conf S) (t : S.Thread) (ch : S.Choice) : Option (Conf S) :=
  match c.prog t with
  | .ret a => a.elim
  | .acquire l k =>
    if c.owner l = none then
      some { c with
        owner := Function.update c.owner l (some t)
        prog := Function.update c.prog t k }
    else none
  | .release l k =>
    some { c with
      owner := Function.update c.owner l none
      prog := Function.update c.prog t k }
  | .act f k =>
    some { c with
      state := f c.state
      prog := Function.update c.prog t (k c.state) }
  | .choose k => some { c with prog := Function.update c.prog t (k ch) }
  | .swtch l target f k =>
    some { c with
      state := f c.state
      owner := Function.update c.owner l (some (target c.state))
      prog := Function.update c.prog t k }
  | .goto e => some { c with prog := Function.update c.prog t (Y.code e) }
  | .panic _ => none

/-- The interleavings of the threads. An event names the thread and the outcome of its choice, if
it makes one. -/
def machine (Y : Threads S) (init : Conf S → Prop) : Machine (Conf S) (S.Thread × S.Choice) where
  init := init
  next c e := if Y.awaits c.state e.1 = none then Y.instr c e.1 e.2 else none

end Threads

end Core
