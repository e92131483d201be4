import Xv6.Proc.Table

/-!
# Operations by pid

`kill` and `setpriority` look for a slot of the process table by its pid alone. A free slot has the
pid 0, so both also find free slots, and a slot that was killed while it was free is still killed
when `allocproc` takes it.
-/

namespace Xv6.Table

open Core

variable {s s' : Table} {e : ProcCall} {pid : Int32}

variable {i : Fin NPROC}

end Xv6.Table
