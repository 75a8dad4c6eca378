import Switchboard.Config
import Switchboard.Files
import Switchboard.Word
import Switchboard.Yaml.Plain

/-! Configurations from YAML. A structure takes its fields by name or by place. Unknown fields are
passed over, and a known one may stand once. -/

namespace Switchboard.Config

open Yaml (Node Datum)

/-- The values of known fields. By place, a field that is missing was not written. -/
structure Fields (α : Type) where
  entries : Table α
  byPlace : Bool

namespace Fields

variable {α : Type}

/-- Adds a named field unless it is there already. -/
def add (names : List String) (f : Fields α) (name : String) (value : α) : Option (Fields α) :=
  if !names.contains name then some f
  else if f.entries.contains name then none
  else some { f with entries := f.entries ++ [(name, value)] }

def ofPairs (names : List String) (pairs : List (String × α)) : Option (Fields α) :=
  pairs.foldlM (fun f (name, value) => f.add names name value) ⟨[], false⟩

def ofItems (names : List String) (items : List α) : Option (Fields α) :=
  if names.length < items.length then none else some ⟨names.zip items, true⟩

/-- A field with a default. -/
def orElse {β : Type} (f : Fields α) (name : String) (read : α → Option β) (default : β) :
    Option β :=
  match f.entries.get? name with
  | some value => read value
  | none => some default

/-- A field that has to be written where fields stand by place. -/
def optional {β : Type} (f : Fields α) (name : String) (read : α → Option (Option β)) :
    Option (Option β) :=
  match f.entries.get? name with
  | some value => read value
  | none => if f.byPlace then none else some none

def required {β : Type} (f : Fields α) (name : String) (read : α → Option β) : Option β :=
  (f.entries.get? name).bind read

end Fields

/-! ### Nodes -/

/-- A scalar, however it is written. -/
def textOf : Node → Option String
  | .scalar s _ _ => some s
  | _ => none

def isEmptyNode : Node → Bool
  | .void => true
  | .scalar s plain _ => plain && s.isEmpty
  | _ => false

/-- A natural number within 64 bits, not between quotes. -/
def wordOf : Node → Option Nat
  | .scalar s true _ => (Yaml.natOf? s).filter (· < Word.size64)
  | _ => none

def listOf {β : Type} (item : Node → Option β) : Node → Option (List β)
  | .sequence items _ => items.mapM item
  | n => if isEmptyNode n then some [] else none

/-- Nothing, or a value. -/
def optionOf {β : Type} (value : Node → Option β) (n : Node) : Option (Option β) :=
  match n with
  | .void => some none
  | .scalar s true none => if s.isEmpty || Yaml.isNullText s then some none else (value n).map some
  | .scalar s true (some tag) =>
    if tag == Yaml.coreTag "null" then (if Yaml.isNullText s then some none else none)
    else (value n).map some
  | _ => (value n).map some

/-- The pairs of a mapping, with their keys as text. -/
def textPairs (pairs : List (Node × Node)) : Option (List (String × Node)) :=
  pairs.mapM fun (k, v) => (textOf k).map (·, v)

def fieldsOf (names : List String) : Node → Option (Fields Node)
  | .mapping pairs _ => (textPairs pairs).bind (Fields.ofPairs names)
  | .sequence items _ => Fields.ofItems names items
  | n => if isEmptyNode n then some ⟨[], false⟩ else none

/-! ### Middleware -/

def datumText : Datum → Option String
  | .text s => some s
  | _ => none

def datumOption {β : Type} (value : Datum → Option β) : Datum → Option (Option β)
  | .null => some none
  | d => (value d).map some

def datumWord (limit : Nat) : Datum → Option Nat
  | .int n => if 0 ≤ n && n < limit then some n.toNat else none
  | _ => none

def datumBool : Datum → Option Bool
  | .bool b => some b
  | _ => none

def datumTexts : Datum → Option (List String)
  | .list items => items.mapM datumText
  | _ => none

/-- A strategy by its name, or as a pair of its name or place with nothing. -/
def strategyOf : Datum → Option KeyStrategy
  | .text s => KeyStrategy.ofName? s
  | .map [(key, value)] =>
    let isNothing :=
      match value with
      | .null => true
      | .map [] => true
      | _ => false
    if isNothing then
      match key with
      | .text s => KeyStrategy.ofName? s
      | .int n => if 0 ≤ n then KeyStrategy.all[n.toNat]? else none
      | _ => none
    else none
  | _ => none

/-- The name of a field, or of the field at a place. An empty name stands for an unknown one. -/
def fieldName (names : List String) : Datum → Option String
  | .text s => some s
  | .int n => if 0 ≤ n then some ((names[n.toNat]?).getD "") else none
  | _ => none

def datumFields (names : List String) : Datum → Option (Fields Datum)
  | .map pairs =>
    let named := pairs.mapM fun (pair : Datum × Datum) => (fieldName names pair.1).map (·, pair.2)
    named.bind (Fields.ofPairs names)
  | .list items => Fields.ofItems names items
  | _ => none

def RateLimit.ofDatum (d : Datum) : Option RateLimit := do
  let f ← datumFields
    ["requests", "interval", "burst", "key_strategy", "header_name", "cleanup_interval",
      "evict_after"] d
  some
    { requests := ← f.orElse "requests" (datumOption (datumWord Word.size32)) none
      interval := ← f.orElse "interval" (datumOption datumText) none
      burst := ← f.orElse "burst" (datumOption (datumWord Word.size32)) none
      keyStrategy := ← f.orElse "key_strategy" strategyOf .ip
      headerName := ← f.orElse "header_name" (datumOption datumText) none
      cleanupInterval := ← f.orElse "cleanup_interval" (datumOption datumText) none
      evictAfter := ← f.orElse "evict_after" (datumOption datumText) none }

def Timeout.ofDatum (d : Datum) : Option Timeout := do
  let f ← datumFields ["timeout"] d
  some ⟨← f.orElse "timeout" (datumOption datumText) none⟩

def Cors.ofDatum (d : Datum) : Option Cors := do
  let f ← datumFields
    ["allow_origins", "allow_methods", "allow_headers", "expose_headers", "allow_credentials",
      "max_age"] d
  some
    { allowOrigins := ← f.orElse "allow_origins" datumTexts []
      allowMethods := ← f.orElse "allow_methods" datumTexts []
      allowHeaders := ← f.orElse "allow_headers" datumTexts []
      exposeHeaders := ← f.orElse "expose_headers" datumTexts []
      allowCredentials := ← f.orElse "allow_credentials" datumBool false
      maxAge := ← f.orElse "max_age" (datumOption (datumWord Word.size64)) none }

def Jwt.ofDatum (d : Datum) : Option Jwt := do
  let f ← datumFields ["secret", "public_key_path", "ctx_key"] d
  some
    { secret := ← f.orElse "secret" (datumOption datumText) none
      publicKeyPath := ← f.orElse "public_key_path" (datumOption datumText) none
      ctxKey := ← f.orElse "ctx_key" (datumOption datumText) none }

/-- The configuration of the given type. Some types need none and pass over what is there. -/
def Middleware.ofDatum (type : String) (d : Datum) : Option Middleware :=
  match type with
  | "rate_limit" => (RateLimit.ofDatum d).map .rateLimit
  | "timing" => some .timing
  | "restore" => some .restore
  | "timeout" => (Timeout.ofDatum d).map .timeout
  | "cors" => (Cors.ofDatum d).map .cors
  | "jwt" => (Jwt.ofDatum d).map .jwt
  | _ => none

def isTypeKey : Node → Bool
  | .scalar s _ _ => s == "type"
  | _ => false

/-- The type stands beside the other fields, or as the first item of a list. -/
def Middleware.ofNode : Node → Option Middleware
  | .mapping pairs tag =>
    if tag.any Yaml.isLocal then none
    else
      match pairs.filter (isTypeKey ·.1) with
      | [(_, type)] => do
        let fields ← Yaml.pairsOf (pairs.filter (!isTypeKey ·.1))
        Middleware.ofDatum (← textOf type) (.map fields)
      | _ => none
  | .sequence (type :: items) tag =>
    if tag.any Yaml.isLocal then none
    else do
      let items ← Yaml.dataOf items
      Middleware.ofDatum (← textOf type) (.list items)
  | _ => none

def middlewaresOf : Node → Option (Table Middleware)
  | .mapping pairs _ => do
    let entries ← (← textPairs pairs).mapM fun (name, n) => (Middleware.ofNode n).map (name, ·)
    some (Table.ofList entries)
  | n => if isEmptyNode n then some [] else none

/-! ### The service -/

def levelOf (n : Node) : Option String := do
  let f ← fieldsOf ["level"] n
  f.orElse "level" textOf defaultLevel

def Http.ofNode (n : Node) : Option Http := do
  let f ← fieldsOf ["name", "addr", "base_middleware", "max_in_flight"] n
  some
    { name := ← f.orElse "name" textOf Http.default.name
      addr := ← f.orElse "addr" textOf Http.default.addr
      baseMiddleware := ← f.orElse "base_middleware" (listOf textOf) []
      maxInFlight := ← f.orElse "max_in_flight" wordOf Http.default.maxInFlight }

def Consumer.ofNode (n : Node) : Option Consumer := do
  let f ← fieldsOf ["name", "queue", "base_middleware", "limit_message_count"] n
  some
    { name := ← f.required "name" textOf
      queue := ← f.optional "queue" (optionOf textOf)
      baseMiddleware := ← f.optional "base_middleware" (optionOf (listOf textOf))
      limitMessageCount :=
        ← f.orElse "limit_message_count" wordOf (Consumer.ofName "").limitMessageCount }

def Service.ofNode (n : Node) : Option Service := do
  let f ← fieldsOf ["logging", "middlewares", "http", "kafka", "amqp"] n
  some
    { level := ← f.orElse "logging" levelOf defaultLevel
      middlewares := ← f.orElse "middlewares" middlewaresOf []
      http := ← f.optional "http" (optionOf Http.ofNode)
      kafka := ← f.optional "kafka" (optionOf Consumer.ofNode)
      amqp := ← f.optional "amqp" (optionOf Consumer.ofNode) }

def Service.ofYaml (text : String) : Except SetupError Service :=
  match (Node.ofText? text).bind Service.ofNode with
  | some s => s.validate.map fun _ => s
  | none => .error .yaml

def Service.load (around : Surroundings) (path : String) : Except SetupError Service :=
  match around.readText path with
  | .ok text => ofYaml text
  | .error e => .error (.io e)

end Switchboard.Config
