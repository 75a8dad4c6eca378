import Switchboard.Text.CapitalTable

/-! Upper case of whole texts, character by character. -/

namespace Switchboard.Text

def CaseRun.capital? (run : CaseRun) (n : Nat) : Option Char :=
  if run.first ≤ n && n ≤ run.last && (n - run.first) % run.stride == 0 then
    some (Char.ofNat (run.distance + n).toNat)
  else none

def capital (c : Char) : List Char :=
  match expandingCapitals.lookup c.toNat with
  | some codes => codes.map Char.ofNat
  | none => [(capitalRuns.findSome? (·.capital? c.toNat)).getD c]

def upper (s : String) : String :=
  String.ofList (s.toList.flatMap capital)

/-- Upper case of the letters a to z alone. -/
def upperAscii (s : String) : String :=
  s.map Char.toUpper

def lowerAscii (s : String) : String :=
  s.map Char.toLower

end Switchboard.Text
