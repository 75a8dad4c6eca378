/-! A fixed number of slots and a line in front of them. A slot that is given back goes to the
first in the line, who gathers slots until there are enough. -/

namespace Switchboard.Server

structure Waiter (ι : Type) where
  who : ι
  held : Nat
  missing : Nat

structure Gate (ι : Type) where
  limit : Nat
  free : Nat
  line : List (Waiter ι)

namespace Gate

variable {ι : Type}

def ofLimit (limit : Nat) : Gate ι :=
  ⟨limit, limit, []⟩

/-- Takes so many slots, or takes those that are free and waits for the others. -/
def take (g : Gate ι) (who : ι) (count : Nat) : Gate ι × Bool :=
  if count ≤ g.free then ({ g with free := g.free - count }, true)
  else
    ({ g with free := 0, line := g.line ++ [⟨who, g.free, count - g.free⟩] }, false)

/-- Hands out slots along the line. Yields what is left, the line behind, and who has enough. -/
def hand (count : Nat) : List (Waiter ι) → Nat × List (Waiter ι) × List ι
  | [] => (count, [], [])
  | w :: line =>
    if w.missing ≤ count then
      let (left, line, served) := hand (count - w.missing) line
      (left, line, w.who :: served)
    else (0, { w with held := w.held + count, missing := w.missing - count } :: line, [])

def give (g : Gate ι) (count : Nat) : Gate ι × List ι :=
  let (left, line, served) := hand count g.line
  ({ g with free := g.free + left, line := line }, served)

/-- Leaves the line and gives back the slots gathered in it. -/
def leave [BEq ι] (g : Gate ι) (who : ι) : Gate ι × List ι :=
  let held := (g.line.filter (·.who == who)).foldr (fun w held => w.held + held) 0
  { g with line := g.line.filter (·.who != who) }.give held

def isWaiting [BEq ι] (g : Gate ι) (who : ι) : Bool :=
  g.line.any (·.who == who)

end Gate

end Switchboard.Server
