import Switchboard.Config
import Switchboard.Net.Address
import Switchboard.Net.Target
import Switchboard.Router.Methods
import Switchboard.Server.Dispatch
import Switchboard.Server.Gate
import Switchboard.Server.Stats

/-! The HTTP front end: from a request to its route and from a context to the reply. -/

namespace Switchboard.Server

/-- A request as it comes from the network. -/
structure Incoming where
  method : String
  target : String
  headers : Headers
  /-- Missing if the body cannot be read. -/
  body : Option Bytes
  client : Net.Ip
  /-- The id of the request if it brings none. -/
  freshId : String

def requestIdHeader : String := "x-request-id"

namespace Incoming

def id (i : Incoming) : Bytes :=
  (i.headers.get? requestIdHeader).getD (Utf8.encode i.freshId)

def path (i : Incoming) : String :=
  Net.path i.target

def request (i : Incoming) (body : Bytes) : Request :=
  { method := i.method
    path := i.path
    headers := i.headers.insert requestIdHeader i.id
    body := body
    remote := some i.client.text }

end Incoming

namespace Http

/-- A plain success without a body is a success without content. -/
def statusOf (r : Response) : Nat :=
  if r.status == 200 && r.body.isEmpty then 204 else r.status

/-- A number that is no status is sent as 500. -/
def sentStatus (status : Nat) : Nat :=
  if 100 ≤ status && status < 1000 then status else 500

def defaultContentType : String := "application/json; charset=utf-8"

/-- The reply to a context. The answers of routes have a content type. -/
def replyTo (found : Bool) (r : Response) : Reply :=
  { status := sentStatus (statusOf r)
    headers :=
      if found && !r.headers.contains "content-type" then
        r.headers.insert "content-type" (Utf8.encode defaultContentType)
      else r.headers
    body := r.body }

def badRequest : Reply := ⟨400, .empty, []⟩

def isBodiless (method : String) (status : Nat) : Bool :=
  method == "HEAD" || (method == "CONNECT" && 200 ≤ status && status < 300)

/-- What leaves for the network: the reply with the id of its request. -/
def stamp (i : Incoming) (r : Reply) : Reply :=
  { r with
    headers := r.headers.insert requestIdHeader i.id
    body := if isBodiless i.method r.status then [] else r.body }

end Http

structure HttpServer where
  config : Config.Http
  router : MethodRouter
  gate : Gate Nat
  stats : Stats
  running : Bool

namespace HttpServer

/-- The base chain is resolved before the limit is looked at. -/
def ofConfig (config : Config.Http) (registry : Registry) : Except SetupError HttpServer := do
  let router ← (MethodRouter.empty registry).withBase config.baseMiddleware
  let limit ← config.limit
  pure ⟨config, router, .ofLimit limit, .zero, false⟩

def push (s : HttpServer) (method path : String) (handler : Handler) (names : List String) :
    Except SetupError (HttpServer × List String) :=
  (s.router.push method path handler names).map fun (router, lines) =>
    ({ s with router := router }, lines)

def start (s : HttpServer) : Except SetupError (HttpServer × Net.Ip) :=
  if s.running then .error (.server (s.config.name ++ " is already running"))
  else
    match Net.bind s.config.addr with
    | .ok (ip, _) => .ok ({ s with running := true }, ip)
    | .error e => .error (.io e)

def stop (s : HttpServer) : HttpServer :=
  { s with running := false }

/-- The context that a request is dispatched with, and the route that it takes. -/
def route (s : HttpServer) (i : Incoming) : Option (Handler × Table String) :=
  s.router.find i.method i.path

/-- Counts a context and makes its reply. -/
def answer (s : HttpServer) (found : Bool) (r : Response) : HttpServer × Reply :=
  ({ s with stats := s.stats.record (Http.statusOf r) }, Http.replyTo found r)

/-- Counts and answers a request whose body cannot be read. -/
def refuse (s : HttpServer) : HttpServer × Reply :=
  ({ s with stats := s.stats.record 400 }, Http.badRequest)

end HttpServer

end Switchboard.Server
