import Switchboard.Route.Segment
import Switchboard.Text.Blank

/-! Paths in normal form, with a slash at both ends, and their division into segments. -/

namespace Switchboard.Route

/-- Adds the slash in front and the slash at the end where they are missing. -/
def normalizeChars (path : List Char) : List Char :=
  let opened := if path.head? = some '/' then path else '/' :: path
  if opened.getLast? = some '/' then opened else opened ++ ['/']

def normalize (path : String) : String :=
  String.ofList (normalizeChars path.toList)

/-- The pieces between the slashes, at least one. -/
def pieces : List Char → List (List Char)
  | [] => [[]]
  | c :: rest =>
    if c = '/' then [] :: pieces rest
    else
      match pieces rest with
      | [] => [[c]]
      | piece :: more => (c :: piece) :: more

def dropOpening : List Char → List Char
  | '/' :: rest => rest
  | path => path

def dropClosing (path : List Char) : List Char :=
  if path.getLast? = some '/' then path.dropLast else path

/-- One slash is taken off at each end. What then is empty has no segments. -/
def splitChars (path : List Char) : List (List Char) :=
  match dropClosing (dropOpening path) with
  | [] => []
  | inner => pieces inner

def split (path : String) : List String :=
  (splitChars path.toList).map String.ofList

/-- The segments of a pattern. -/
def pattern (path : String) : List Segment :=
  (split (normalize path)).map Segment.parse

/-- A path that is `*` between its outer slashes stands for every path. -/
def isWildcard (path : String) : Bool :=
  Text.trimBy (· == '/') path.toList == ['*']

/-- The leftmost name that an earlier segment has bound. -/
def repeatedName? (bound : List String) : List Segment → Option String
  | [] => none
  | .literal _ :: rest => repeatedName? bound rest
  | .dynamic name :: rest =>
    if bound.contains name then some name else repeatedName? (name :: bound) rest

end Switchboard.Route
