/-! Bytes and the UTF-8 encoding form. A reading yields the characters in order and an empty place
for every longest stretch that begins no character. -/

namespace Switchboard

abbrev Bytes := List UInt8

namespace Utf8

def encode (s : String) : Bytes :=
  s.toList.flatMap String.utf8EncodeChar

def isContinuation (b : UInt8) : Bool :=
  0x80 ≤ b && b ≤ 0xBF

/-- The second bytes that a first byte admits keep out overlong forms, surrogates and code points
above `10FFFF`. -/
def admitsSecond (first second : UInt8) : Bool :=
  if first == 0xE0 then 0xA0 ≤ second && second ≤ 0xBF
  else if first == 0xED then 0x80 ≤ second && second ≤ 0x9F
  else if first == 0xF0 then 0x90 ≤ second && second ≤ 0xBF
  else if first == 0xF4 then 0x80 ≤ second && second ≤ 0x8F
  else isContinuation second

/-- The length of the sequence that a first byte announces, zero for a byte that begins none. -/
def width (first : UInt8) : Nat :=
  if first < 0x80 then 1
  else if 0xC2 ≤ first && first ≤ 0xDF then 2
  else if 0xE0 ≤ first && first ≤ 0xEF then 3
  else if 0xF0 ≤ first && first ≤ 0xF4 then 4
  else 0

def payload (b : UInt8) : Nat :=
  b.toNat % 0x40

/-- The first character of `first :: rest` and what follows it. -/
def step (first : UInt8) (rest : Bytes) : Option Char × Bytes :=
  match width first with
  | 1 => (some (Char.ofNat first.toNat), rest)
  | 2 =>
    match rest with
    | b :: more =>
      if admitsSecond first b then
        (some (Char.ofNat (first.toNat % 0x20 * 0x40 + payload b)), more)
      else (none, rest)
    | [] => (none, [])
  | 3 =>
    match rest with
    | b :: c :: more =>
      if !admitsSecond first b then (none, rest)
      else if !isContinuation c then (none, c :: more)
      else (some (Char.ofNat ((first.toNat % 0x10 * 0x40 + payload b) * 0x40 + payload c)), more)
    | [b] => (none, if admitsSecond first b then [] else [b])
    | [] => (none, [])
  | 4 =>
    match rest with
    | b :: c :: d :: more =>
      if !admitsSecond first b then (none, rest)
      else if !isContinuation c then (none, c :: d :: more)
      else if !isContinuation d then (none, d :: more)
      else
        (some (Char.ofNat
          (((first.toNat % 0x08 * 0x40 + payload b) * 0x40 + payload c) * 0x40 + payload d)), more)
    | [b, c] =>
      if !admitsSecond first b then (none, [b, c])
      else (none, if isContinuation c then [] else [c])
    | [b] => (none, if admitsSecond first b then [] else [b])
    | [] => (none, [])
  | _ => (none, rest)

theorem length_step_le (first : UInt8) (rest : Bytes) :
    (step first rest).2.length ≤ rest.length := by
  unfold step
  repeat' split
  all_goals simp_all <;> omega

def read : Bytes → List (Option Char)
  | [] => []
  | first :: rest => (step first rest).1 :: read (step first rest).2
termination_by bytes => bytes.length
decreasing_by
  have := length_step_le first rest
  simp only [List.length_cons]
  omega

/-- The text of bytes that are UTF-8 throughout. -/
def decode? (bytes : Bytes) : Option String :=
  ((read bytes).mapM id).map String.ofList

/-- The text of any bytes, with `U+FFFD` in every empty place. -/
def decodeLossy (bytes : Bytes) : String :=
  String.ofList ((read bytes).map (·.getD '\uFFFD'))

end Utf8

end Switchboard
