import Switchboard.Encoding.Percent

/-! Request targets: the path inside an address, without its scheme, host, query and fragment. -/

namespace Switchboard.Net

def untilQuery (cs : List Char) : List Char :=
  cs.takeWhile fun c => c != '?' && c != '#'

/-- What follows `://`, if anything does. -/
def afterScheme? : List Char → Option (List Char)
  | ':' :: '/' :: '/' :: rest => some rest
  | '/' :: _ => none
  | _ :: rest => afterScheme? rest
  | [] => none

/-- An address without a path has the path `/`, and a bare host has none. -/
def rawPath (target : String) : String :=
  let cs := target.toList
  match cs with
  | '/' :: _ => String.ofList (untilQuery cs)
  | ['*'] => "*"
  | _ =>
    match afterScheme? cs with
    | none => ""
    | some rest =>
      let path := untilQuery (rest.dropWhile fun c => c != '/' && c != '?' && c != '#')
      if path.isEmpty then "/" else String.ofList path

def path (target : String) : String :=
  Percent.decodePath (rawPath target)

end Switchboard.Net
