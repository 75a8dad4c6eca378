import Switchboard.Table
import Switchboard.RateLimit.Amount

/-! Token buckets by key. A bucket starts full, refills with time up to the capacity that the call
names, and gives one token to each admitted call. -/

namespace Switchboard.RateLimit

structure Bucket (R : Type) where
  tokens : R
  refilled : Instant
  /-- The time of the last admitted call, or of the creation before there was one. -/
  used : Instant

inductive Decision where
  | admitted (remaining : Nat)
  /-- The wait until a token is there, also in whole seconds. -/
  | rejected (wait : Duration) (retry : Nat)
deriving DecidableEq, Repr

/-- All buckets ever created, and for each key that is in use the place of its bucket. -/
structure Store (R : Type) where
  buckets : Array (Bucket R)
  index : Table Nat

namespace Bucket

variable {R : Type} [Amount R]

def full (capacity : Nat) (now : Instant) : Bucket R :=
  ⟨Amount.ofNat capacity, now, now⟩

def refill (b : Bucket R) (capacity : Nat) (rate : R) (now : Instant) : Bucket R :=
  if b.refilled < now then
    let gained := Amount.ofDuration ⟨now - b.refilled⟩ * rate
    { b with tokens := Amount.min (b.tokens + gained) (Amount.ofNat capacity), refilled := now }
  else b

/-- Takes a token, or says how long to wait. No answer means that the wait is too long to say. -/
def take (b : Bucket R) (rate : R) (now : Instant) : Bucket R × Option Decision :=
  if Amount.atMost (Amount.ofNat 1) b.tokens then
    let rest := b.tokens - Amount.ofNat 1
    ({ b with tokens := rest, used := now }, some (.admitted (Amount.floor rest)))
  else
    (b, (Amount.toDuration? ((Amount.ofNat 1 - b.tokens) / rate)).map fun wait =>
      .rejected wait (Amount.wholeSeconds R wait))

def decide (b : Bucket R) (capacity : Nat) (rate : R) (now : Instant) :
    Bucket R × Option Decision :=
  (b.refill capacity rate now).take rate now

def isStale (b : Bucket R) (after : Duration) (now : Instant) : Bool :=
  after.nanos ≤ now - b.used

end Bucket

namespace Store

variable {R : Type}

def empty : Store R :=
  ⟨#[], []⟩

/-- The number of keys in use. -/
def active (s : Store R) : Nat :=
  s.index.length

/-- Removes a bucket if it is still the one that its key leads to. -/
def removeIf (s : Store R) (key : String) (id : Nat) : Store R × Bool :=
  if s.index.get? key = some id then
    ({ s with index := s.index.filter (·.1 != key) }, true)
  else (s, false)

def removeAll (s : Store R) : List (String × Nat) → Store R × Nat
  | [] => (s, 0)
  | (key, id) :: rest =>
    let (s, removed) := s.removeIf key id
    let (s, count) := s.removeAll rest
    (s, if removed then count + 1 else count)

variable [Amount R]

/-- The bucket of a key, created where there is none. -/
def locate (s : Store R) (key : String) (capacity : Nat) (now : Instant) : Store R × Nat :=
  match s.index.get? key with
  | some id => (s, id)
  | none =>
    ({ buckets := s.buckets.push (Bucket.full capacity now)
       index := s.index.insert key s.buckets.size }, s.buckets.size)

def decideAt (s : Store R) (id : Nat) (capacity : Nat) (rate : R) (now : Instant) :
    Store R × Option Decision :=
  match s.buckets[id]? with
  | some bucket =>
    let (bucket, decision) := bucket.decide capacity rate now
    ({ s with buckets := s.buckets.set! id bucket }, decision)
  | none => (s, none)

/-- A rate that is not a positive finite number admits nobody. -/
def isUsable (rate : R) : Bool :=
  (Amount.fraction? rate).isSome && !Amount.atMost rate (Amount.ofNat 0)

def acquire (s : Store R) (key : String) (capacity : Nat) (rate : R) (now : Instant) :
    Store R × Option Decision :=
  if isUsable rate then
    let (s, id) := s.locate key capacity now
    s.decideAt id capacity rate now
  else (s, some (.rejected (Duration.ofSeconds 1) 1))

def isStaleAt (s : Store R) (after : Duration) (now : Instant) (id : Nat) : Bool :=
  s.buckets[id]?.any (·.isStale after now)

/-- Removes the buckets that no admitted call has used for so long, and counts them. -/
def evict (s : Store R) (after : Duration) (now : Instant) : Store R × Nat :=
  s.removeAll (s.index.filter fun entry => s.isStaleAt after now entry.2)

end Store

end Switchboard.RateLimit
