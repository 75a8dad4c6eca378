import Std.Time.DateTime.Timestamp
import Switchboard.Server.RequestId
import Switchboard.Service.Launch

/-! The command. It brings up the service that a configuration file describes and answers the
requests on its input, one in a line: a method, a target and perhaps a body, with blanks between
them. The end of the input stops the service. -/

namespace Switchboard.Command

open Server

def defaultPath : String := "service.yaml"

/-- The path of the configuration that the arguments name. -/
def configPath? : List String → Option String
  | [] => some defaultPath
  | ["-c", path] => some path
  | ["--config", path] => some path
  | [argument] => (argument.dropPrefix? "--config=").map (·.toString)
  | _ => none

def usage : String := "Usage: switchboard [-c | --config <path>]"

/-- A request from a line. -/
def incoming? (freshId line : String) : Option Incoming :=
  match line.splitOn " " with
  | method :: target :: body =>
    some
      { method := method
        target := target
        headers := .empty
        body := some (Utf8.encode (" ".intercalate body))
        client := .v4 127 0 0 1
        freshId := freshId }
  | _ => none

/-- The text that an answer is shown as. -/
def shown : Service.Answer → String
  | .replied reply _ => reply.toJson.text
  | .failed fault => "panic: " ++ fault.text

def date : IO Nat := do
  let now ← Std.Time.Timestamp.now
  pure now.toSecondsSinceUnixEpoch.val.toNat

/-- Adds what is found at a path. -/
def withPath (around : Surroundings) (path : String) : IO Surroundings := do
  try
    let content ← IO.FS.readBinFile path
    pure (around.addEntry path (.file content.toList))
  catch e =>
    match e with
    | .inappropriateType .. => pure (around.addEntry path .directory)
    | _ => pure around

/-- What the service at a path finds around it. -/
def surroundings (path : String) : IO Surroundings := do
  let around ← [".env", path].foldlM withPath .empty
  let around ←
    match Config.Service.load around path with
    | .ok config => config.keyPaths.foldlM withPath around
    | .error _ => pure around
  match ← IO.getEnv Middleware.Auth.secretVariable with
  | some secret =>
    pure { around with environment := [(Middleware.Auth.secretVariable, secret)] }
  | none => pure around

partial def serve (input output : IO.FS.Stream) (start : Nat) (s : Service Float) : IO Unit := do
  let line ← input.getLine
  let s := s.catchUp ((← IO.monoNanosNow) - start) (← date)
  if line.isEmpty then
    let _ := s.shutdown
    return
  let bits ← IO.rand 0 (Nat.pow 2 122 - 1)
  match incoming? (RequestId.ofBits bits) line.trimAscii.toString with
  | some i =>
    let (s, answer) := s.request i
    output.putStrLn (shown answer)
    output.flush
    serve input output start s
  | none =>
    output.putStrLn usage
    serve input output start s

end Switchboard.Command

open Switchboard in
def main (arguments : List String) : IO UInt32 := do
  match Command.configPath? arguments with
  | none =>
    IO.eprintln Command.usage
    return 2
  | some path =>
    let around ← Command.surroundings path
    match Service.ofPath around (← Command.date) path with
    | .error e =>
      IO.eprintln ("Error: " ++ e.message)
      return 1
    | .ok s =>
      Command.serve (← IO.getStdin) (← IO.getStdout) (← IO.monoNanosNow) s
      return 0
