import Switchboard.Duration
import Switchboard.Message

/-! What travels through middleware and handlers: the request, the answer so far, the names bound
by the route and the values that middleware leaves for those inside. -/

namespace Switchboard

inductive Value where
  | text (s : String)
  | number (n : Int)
  | duration (d : Duration)
  | json (j : Json)

structure Context where
  request : Request
  response : Response
  params : Table String
  values : Table Value

def Duration.toJson (d : Duration) : Json :=
  .obj [("nanos", .ofNat d.subsecond), ("secs", .ofNat d.seconds)]

/-- A value under the name of its kind. -/
def Value.toJson : Value → Json
  | text s => .obj [("string", .str s)]
  | number n => .obj [("int", .int n)]
  | duration d => .obj [("duration", d.toJson)]
  | json j => .obj [("json", j)]

/-- Text pairs as an object. -/
def Table.toJson (t : Table String) : Json :=
  .ofMembers (t.map fun (k, v) => (k, .str v))

def Table.debugText (t : Table String) : String :=
  "\x7b" ++ ", ".intercalate (t.map fun (k, v) => Text.quoted k ++ ": " ++ Text.quoted v) ++ "\x7d"

namespace Context

def ofRequest (r : Request) : Context :=
  ⟨r, .fresh, [], []⟩

instance : Inhabited Context := ⟨ofRequest default⟩

def mapResponse (c : Context) (f : Response → Response) : Context :=
  { c with response := f c.response }

def setParams (c : Context) (params : Table String) : Context :=
  { c with params := params }

def param? (c : Context) (name : String) : Option String :=
  c.params.get? name

def set (c : Context) (key : String) (value : Value) : Context :=
  { c with values := c.values.insert key value }

def get? (c : Context) (key : String) : Option Value :=
  c.values.get? key

/-- The answer, the bound names and those of the named values that are there. -/
def toJson (c : Context) (shown : List String) : Json :=
  let values := shown.filterMap fun key => (c.get? key).map fun v => (key, v.toJson)
  .obj [("body", bytesJson c.response.body), ("headers", c.response.headers.toJson),
    ("params", c.params.toJson), ("status", .ofNat c.response.status),
    ("values", .ofMembers values)]

def debugText (c : Context) : String :=
  "Context \x7b request: " ++ c.request.debugText ++ ", response: " ++ c.response.debugText ++
    ", params: " ++ c.params.debugText ++ ", values: [" ++
    ", ".intercalate (c.values.keys.map Text.quoted) ++ "] \x7d"

end Context

end Switchboard
