/-! Segments of a route pattern: a literal, or a name in braces that binds what it meets. -/

namespace Switchboard.Route

inductive Segment where
  | literal (text : String)
  | dynamic (name : String)
deriving DecidableEq, Repr

namespace Segment

def isDynamic : Segment → Bool
  | literal _ => false
  | dynamic _ => true

/-- What stands between an opening brace in front and a closing brace at the end. -/
def braced? : List Char → Option (List Char)
  | '\x7b' :: rest => if rest.getLast? = some '\x7d' then some rest.dropLast else none
  | _ => none

/-- Braces around nothing are a literal. -/
def parse (raw : String) : Segment :=
  match braced? raw.toList with
  | some (c :: name) => dynamic (String.ofList (c :: name))
  | _ => literal raw

/-- The literal, or the name without its braces. -/
def text : Segment → String
  | literal s => s
  | dynamic s => s

end Segment

end Switchboard.Route
