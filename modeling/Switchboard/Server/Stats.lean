/-! How many requests a front end has handled, and how many of them failed. -/

namespace Switchboard.Server

structure Stats where
  handled : Nat
  failed : Nat
deriving DecidableEq, Repr

namespace Stats

def zero : Stats := ⟨0, 0⟩

/-- A status from 400 on is a failure. -/
def record (s : Stats) (status : Nat) : Stats :=
  ⟨s.handled + 1, if 400 ≤ status then s.failed + 1 else s.failed⟩

end Stats

end Switchboard.Server
