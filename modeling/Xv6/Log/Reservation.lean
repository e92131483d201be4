import Xv6.Log.Grouping

/-!
# Space in the log

`begin_op` reserves `MAXOPBLOCKS` entries for each operation. The reservation keeps `log.lh.n` below
`LOGSIZE` when a block is added, but `log_write` also asks for `log.lh.n < log.size - 1`, and `mkfs`
gives the log `LOGSIZE` blocks including its header. The last reserved entry cannot be used.
-/

namespace Xv6.Log

open Core

namespace Group

variable {P : Type} {size : ℤ} {s s' : Group P}

/-! ### When `log_write` panics -/

section

variable [DecidableEq P]

/-- An operation logs at most `MAXOPBLOCKS` distinct blocks. -/
def Fits (s : Group P) : Call P → Prop
  | .logWrite p b => s.pc p = .inOp → (insert b (s.writes p)).card ≤ MAXOPBLOCKS
  | _ => True

instance (s : Group P) (e : Call P) : Decidable (s.Fits e) := by
  cases e <;> unfold Fits <;> infer_instance

end

end Group

end Xv6.Log
