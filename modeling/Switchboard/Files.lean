import Switchboard.SetupError
import Switchboard.Table
import Switchboard.Text.Utf8

/-! The files and variables that a service finds around it. -/

namespace Switchboard

inductive Entry where
  | file (content : Bytes)
  | directory

structure Surroundings where
  /-- Files and directories below the working directory, by their paths. -/
  files : List (List String × Entry)
  environment : Table String

namespace Surroundings

def empty : Surroundings := ⟨[], []⟩

/-- The steps of a path from the working directory, without those that stay in place. -/
def steps (path : String) : List String :=
  (path.splitOn "/").filter fun step => !step.isEmpty && step != "."

def addEntry (s : Surroundings) (path : String) (entry : Entry) : Surroundings :=
  { s with files := s.files ++ [(steps path, entry)] }

/-- A path leads to a directory if something lies below it. -/
def entry? (s : Surroundings) (path : List String) : Option Entry :=
  match s.files.lookup path with
  | some entry => some entry
  | none =>
    if path.isEmpty || s.files.any (fun (known, _) => path.isPrefixOf known) then some .directory
    else none

/-- Follows a path one step at a time. A step below a file leads nowhere. -/
def follow (s : Surroundings) (here : List String) : List String → Except IoError Entry
  | [] =>
    match s.entry? here with
    | some entry => .ok entry
    | none => .error .notFound
  | step :: rest =>
    match s.entry? here with
    | some .directory =>
      if step == ".." then s.follow here.dropLast rest else s.follow (here ++ [step]) rest
    | some (.file _) => .error .notDirectory
    | none => .error .notFound

def read (s : Surroundings) (path : String) : Except IoError Bytes :=
  if path.toList.contains '\x00' then .error .nulInPath
  else if path.isEmpty then .error .notFound
  else
    match s.follow [] (steps path) with
    | .ok (.file content) => if path.endsWith "/" then .error .notDirectory else .ok content
    | .ok .directory => .error .isDirectory
    | .error e => .error e

def readText (s : Surroundings) (path : String) : Except IoError String :=
  match s.read path with
  | .ok content =>
    match Utf8.decode? content with
    | some text => .ok text
    | none => .error .notText
  | .error e => .error e

def lookupVariable (s : Surroundings) (name : String) : Option String :=
  s.environment.get? name

end Surroundings

end Switchboard
