import Switchboard.Encoding.Base64
import Switchboard.Text.Blank

/-! Labelled data between `BEGIN` and `END` lines. -/

namespace Switchboard.Pem

structure Document where
  label : String
  content : Bytes

/-- What stands before the first occurrence of a mark, and what stands behind it. -/
def splitAt? (mark : List Char) : List Char → Option (List Char × List Char)
  | [] => if mark.isEmpty then some ([], []) else none
  | c :: rest =>
    if mark.isPrefixOf (c :: rest) then some ([], (c :: rest).drop mark.length)
    else (splitAt? mark rest).map fun (before, after) => (c :: before, after)

def isPadding (c : Char) : Bool :=
  c == ' ' || c == '\t' || c == '\n' || c == '\r'

/-- The lines of a text. A carriage return at the end of a line belongs to its end. -/
def lines (cs : List Char) : List (List Char) :=
  let pieces := cs.splitOn '\n'
  let pieces := if pieces.getLast? = some [] then pieces.dropLast else pieces
  pieces.map fun line => if line.getLast? = some '\r' then line.dropLast else line

def trimEnd (cs : List Char) : List Char :=
  (cs.reverse.dropWhile Text.isBlank).reverse

/-- Header lines end with an empty line, and each has a colon. -/
def withoutHeaders? (body : List Char) : Option (List Char) :=
  match (splitAt? "\n\n".toList body).or (splitAt? "\x0D\n\x0D\n".toList body) with
  | some (headers, data) => if (lines headers).all (·.contains ':') then some data else none
  | none => some body

def parse? (bytes : Bytes) : Option Document := do
  let text ← Utf8.decode? bytes
  let (_, rest) ← splitAt? "-----BEGIN ".toList text.toList
  let (label, rest) ← splitAt? "-----".toList rest
  let (body, rest) ← splitAt? "-----END ".toList (rest.dropWhile isPadding)
  let (closing, _) ← splitAt? "-----".toList rest
  let data ← withoutHeaders? body
  let content ← Base64.decode? .standard (String.ofList ((lines data).flatMap trimEnd))
  if label.isEmpty || label != closing then none else some ⟨String.ofList label, content⟩

end Switchboard.Pem
