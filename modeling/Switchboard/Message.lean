import Switchboard.Headers

/-! Requests and responses as handlers see them, whatever front end they came through. -/

namespace Switchboard

structure Request where
  method : String
  path : String
  headers : Headers
  body : Bytes
  remote : Option String

structure Response where
  status : Nat
  headers : Headers
  body : Bytes

namespace Request

instance : Inhabited Request := ⟨⟨"GET", "/", .empty, [], none⟩⟩

def header? (r : Request) (name : String) : Option String :=
  r.headers.text? name

end Request

/-- Bytes as JSON: their text, or else hexadecimal digits. -/
def bytesJson (bytes : Bytes) : Json :=
  match Utf8.decode? bytes with
  | some s => .str s
  | none => .obj [("hex", .str (Hex.encode bytes))]

namespace Request

def toJson (r : Request) : Json :=
  .obj [("body", bytesJson r.body), ("headers", r.headers.toJson), ("method", .str r.method),
    ("path", .str r.path), ("remote", Json.ofOption .str r.remote)]

def debugText (r : Request) : String :=
  let remote :=
    match r.remote with
    | some s => "Some(" ++ Text.quoted s ++ ")"
    | none => "None"
  "Request \x7b method: " ++ Text.quoted r.method ++ ", path: " ++ Text.quoted r.path ++
    ", headers: " ++ r.headers.debugText ++ ", body: " ++ Text.quotedBytes r.body ++
    ", remote_addr: " ++ remote ++ " \x7d"

end Request

namespace Response

/-- The answer before anybody has written to it. -/
def fresh : Response := ⟨200, .empty, []⟩

instance : Inhabited Response := ⟨fresh⟩

def setStatus (r : Response) (status : Nat) : Response :=
  { r with status := status }

def setBody (r : Response) (body : Bytes) : Response :=
  { r with body := body }

def setText (r : Response) (body : String) : Response :=
  r.setBody (Utf8.encode body)

def setHeader (r : Response) (name : String) (value : Bytes) : Response :=
  { r with headers := r.headers.insert name value }

def setHeaderText (r : Response) (name value : String) : Response :=
  r.setHeader name (Utf8.encode value)

def toJson (r : Response) : Json :=
  .obj [("body", bytesJson r.body), ("headers", r.headers.toJson), ("status", .ofNat r.status)]

def debugText (r : Response) : String :=
  "Response \x7b status: " ++ toString r.status ++ ", headers: " ++ r.headers.debugText ++
    ", body: " ++ Text.quotedBytes r.body ++ " \x7d"

end Response

end Switchboard
