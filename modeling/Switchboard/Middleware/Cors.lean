import Switchboard.Config
import Switchboard.Middleware

/-! Middleware for requests from other origins: it marks the answer to an admitted origin, and
answers preflight requests itself. -/

namespace Switchboard.Middleware

namespace Cors

structure Policy where
  origins : List String
  methods : Bytes
  headers : Bytes
  expose : Option Bytes
  credentials : Bool
  maxAge : Nat

def defaultMethods : List String :=
  ["GET", "POST", "PUT", "PATCH", "DELETE", "OPTIONS"]

def defaultHeaders : List String :=
  ["Origin", "Content-Type", "Accept", "Authorization"]

def orDefault (values default : List String) : List String :=
  if values.isEmpty then default else values

/-- The header value that lists the given words. -/
def listValue (name field : String) (words : List String) : Except SetupError Bytes :=
  let value := Utf8.encode (", ".intercalate words)
  if Headers.isValue value then .ok value
  else .error (.invalidMiddleware name (field ++ ": failed to parse header value"))

def Policy.ofConfig (name : String) (c : Config.Cors) : Except SetupError Policy := do
  let expose ←
    if c.exposeHeaders.isEmpty then pure none
    else some <$> listValue name "expose_headers" c.exposeHeaders
  let methods ← listValue name "allow_methods" (orDefault c.allowMethods defaultMethods)
  let headers ← listValue name "allow_headers" (orDefault c.allowHeaders defaultHeaders)
  pure
    { origins := orDefault c.allowOrigins ["*"]
      methods := methods
      headers := headers
      expose := expose
      credentials := c.allowCredentials
      maxAge := (c.maxAge.filter (0 < ·)).getD 86400 }

/-- A star admits every origin. -/
def Policy.admits (p : Policy) (origin : String) : Bool :=
  p.origins.any fun allowed => allowed == "*" || allowed == origin

/-- The `Origin` of a request, if it is text and admitted. -/
def Policy.origin? (p : Policy) (r : Request) : Option Bytes :=
  (r.headers.get? "origin").filter fun value => (Headers.textOf? value).any p.admits

def isPreflight (r : Request) : Bool :=
  r.method == "OPTIONS" && r.headers.contains "access-control-request-method"

def Policy.mark (p : Policy) (origin : Bytes) (response : Response) : Response :=
  let response := response.setHeader "access-control-allow-origin" origin
  let response := response.setHeaderText "vary" "Origin"
  let response :=
    if p.credentials then response.setHeaderText "access-control-allow-credentials" "true"
    else response
  match p.expose with
  | some expose => response.setHeader "access-control-expose-headers" expose
  | none => response

def Policy.answerPreflight (p : Policy) (response : Response) : Response :=
  let response := response.setHeader "access-control-allow-methods" p.methods
  let response := response.setHeader "access-control-allow-headers" p.headers
  let response := response.setHeaderText "access-control-max-age" (toString p.maxAge)
  response.setStatus 204

end Cors

def cors (name : String) (policy : Cors.Policy) : Middleware :=
  plain name fun next ctx =>
    match policy.origin? ctx.request with
    | none => next ctx
    | some origin =>
      let marked := ctx.mapResponse (policy.mark origin)
      if Cors.isPreflight ctx.request then .reply (marked.mapResponse policy.answerPreflight)
      else next marked

end Switchboard.Middleware
