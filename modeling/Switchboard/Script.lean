import Switchboard.Call

/-! Handlers written down as lists of actions. -/

namespace Switchboard

inductive Action where
  | status (code : Nat)
  | body (bytes : Bytes)
  | header (name value : String)
  | append (text : String)
  | echo
  | upper
  | param (name : String)
  | params
  | request
  | value (key : String)
  | set (key text : String)
  | clear
  | log (line : String)
  | sleep (span : Duration)
  | panic (fault : Fault)
  | ifHeader (name : String) (actions : List Action)
  | ifPath (path : String) (actions : List Action)

abbrev Script := List Action

def Context.replyText (ctx : Context) (text : String) : Context :=
  ctx.mapResponse (·.setText text)

mutual

/-- Does one action and goes on with the context that it leaves. -/
def Action.run : Action → Context → (Context → Call) → Call
  | .status code, ctx, next => next (ctx.mapResponse (·.setStatus code))
  | .body bytes, ctx, next => next (ctx.mapResponse (·.setBody bytes))
  | .header name value, ctx, next =>
    match ctx.response.headers.set? name value with
    | some headers => next (ctx.mapResponse ({ · with headers := headers }))
    | none => .report (.headerSkipped name) (next ctx)
  | .append text, ctx, next =>
    next (ctx.replyText ((Utf8.decode? ctx.response.body).getD "" ++ text))
  | .echo, ctx, next => next (ctx.mapResponse (·.setBody ctx.request.body))
  | .upper, ctx, next => next (ctx.replyText (Text.upper (Utf8.decodeLossy ctx.request.body)))
  | .param name, ctx, next => next (ctx.replyText ((ctx.param? name).getD "<none>"))
  | .params, ctx, next => next (ctx.replyText ctx.params.toJson.text)
  | .request, ctx, next => next (ctx.replyText ctx.request.toJson.text)
  | .value key, ctx, next =>
    next (ctx.replyText (Json.ofOption Value.toJson (ctx.get? key)).text)
  | .set key text, ctx, next => next (ctx.set key (.text text))
  | .clear, ctx, next => next (ctx.mapResponse fun _ => .fresh)
  | .log line, ctx, next => .journal line (next ctx)
  | .sleep span, ctx, next => .sleep span (next ctx)
  | .panic fault, _, _ => .panic fault
  | .ifHeader name actions, ctx, next =>
    if (ctx.request.header? name).isSome then Script.run actions ctx next else next ctx
  | .ifPath path actions, ctx, next =>
    if ctx.request.path == path then Script.run actions ctx next else next ctx

def Script.run : List Action → Context → (Context → Call) → Call
  | [], ctx, next => next ctx
  | action :: rest, ctx, next => action.run ctx fun ctx => Script.run rest ctx next

end

/-- The handler that does the actions and replies. -/
def Script.handler (script : Script) : Handler :=
  fun ctx => Script.run script ctx .reply

end Switchboard
