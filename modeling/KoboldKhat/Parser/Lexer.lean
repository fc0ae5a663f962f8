import KoboldKhat.Library.Utf8
import KoboldKhat.Messages
import Mathlib.Algebra.Group.Nat.Defs

/-!
# The lexer of the JSON library

`lexer` of `depend/nlohmann/json.hpp` over a string in memory, with comments not ignored, which is
how `json::parse` makes it. The state of the lexer is what is left of the input: `get` takes the
first byte, at the end it returns `eof` again and again, and `unget` puts the last byte back. A
function that fails has made the token `parse_error`, after which nothing is read any more, so its
result has no rest.

The tokens of numbers are one here, with the text of the number and the type the labels of
`scan_number` have given it. The conversion at the end of `scan_number` is `convertNumber`; it reads
no input, and is made when the token is taken. It tries `strtoull` or `strtoll`, and falls back to
`strtod`, which is a parameter.
-/

set_option autoImplicit false
set_option relaxedAutoImplicit false

namespace KoboldKhat.Parser

/-- `number_type` in `scan_number`. -/
inductive NumberType
  | unsigned
  | integer
  | float
  deriving DecidableEq

/-- `token_type`. -/
inductive Token
  | literalTrue
  | literalFalse
  | literalNull
  | valueString (string : Bytes)
  | valueNumber (type : NumberType) (text : Bytes)
  | beginArray
  | beginObject
  | endArray
  | endObject
  | nameSeparator
  | valueSeparator
  | parseError
  | endOfInput
  deriving DecidableEq

/-! ### Strings -/

/-- The value of a hexadecimal digit in `get_codepoint`. -/
def hexValue (digit : UInt8) : Option ℕ :=
  if 0x30 ≤ digit.toNat ∧ digit.toNat ≤ 0x39 then some (digit.toNat - 0x30)
  else if 0x41 ≤ digit.toNat ∧ digit.toNat ≤ 0x46 then some (digit.toNat - 0x37)
  else if 0x61 ≤ digit.toNat ∧ digit.toNat ≤ 0x66 then some (digit.toNat - 0x57)
  else none

/-- `get_codepoint`: the number of the next four digits. -/
def getCodepoint : Bytes → Option (ℕ × Bytes)
  | first :: second :: third :: fourth :: rest => do
    let first ← hexValue first
    let second ← hexValue second
    let third ← hexValue third
    let fourth ← hexValue fourth
    return (first * 0x1000 + second * 0x0100 + third * 0x0010 + fourth, rest)
  | _ => none

/-- The bytes `scan_string` adds for the code point of an escape. -/
def addCodepoint (codepoint : ℕ) : Bytes :=
  if codepoint < 0x80 then [codepoint.toUInt8]
  else if codepoint ≤ 0x7FF then
    [(0xC0 ||| (codepoint >>> 6)).toUInt8, (0x80 ||| (codepoint &&& 0x3F)).toUInt8]
  else if codepoint ≤ 0xFFFF then
    [(0xE0 ||| (codepoint >>> 12)).toUInt8, (0x80 ||| ((codepoint >>> 6) &&& 0x3F)).toUInt8,
      (0x80 ||| (codepoint &&& 0x3F)).toUInt8]
  else
    [(0xF0 ||| (codepoint >>> 18)).toUInt8, (0x80 ||| ((codepoint >>> 12) &&& 0x3F)).toUInt8,
      (0x80 ||| ((codepoint >>> 6) &&& 0x3F)).toUInt8, (0x80 ||| (codepoint &&& 0x3F)).toUInt8]

/-- The escapes of one letter. -/
def simpleEscape (letter : UInt8) : Option UInt8 :=
  match letter.toNat with
  | 0x22 => some 0x22
  | 0x5C => some 0x5C
  | 0x2F => some 0x2F
  | 0x62 => some 0x08
  | 0x66 => some 0x0C
  | 0x6E => some 0x0A
  | 0x72 => some 0x0D
  | 0x74 => some 0x09
  | _ => none

/-- An escape behind `\u`: a high surrogate is only read together with a low one. -/
def scanUnicode (bytes : Bytes) : Option (Bytes × Bytes) := do
  let (codepoint1, rest) ← getCodepoint bytes
  if 0xD800 ≤ codepoint1 ∧ codepoint1 ≤ 0xDBFF then
    if (ascii "\\u").isPrefixOf rest then
      let (codepoint2, rest) ← getCodepoint (rest.drop 2)
      if 0xDC00 ≤ codepoint2 ∧ codepoint2 ≤ 0xDFFF then
        some (addCodepoint ((codepoint1 <<< 10) + codepoint2 - 0x35FDC00), rest)
      else none
    else none
  else if 0xDC00 ≤ codepoint1 ∧ codepoint1 ≤ 0xDFFF then none
  else some (addCodepoint codepoint1, rest)

/-- An escape behind its backslash. -/
def scanEscape : Bytes → Option (Bytes × Bytes)
  | [] => none
  | letter :: rest =>
    if letter.toNat = 0x75 then scanUnicode rest
    else (simpleEscape letter).map fun byte ↦ ([byte], rest)

/-- `next_byte_in_range`, behind the first byte it adds. -/
def nextByteInRange : List (ℕ × ℕ) → Bytes → Option (Bytes × Bytes)
  | [], bytes => some ([], bytes)
  | _ :: _, [] => none
  | range :: ranges, byte :: rest =>
    if range.1 ≤ byte.toNat ∧ byte.toNat ≤ range.2 then
      (nextByteInRange ranges rest).map fun read ↦ (byte :: read.1, read.2)
    else none

/-- The ranges `scan_string` passes to `next_byte_in_range` for the first byte of a character. -/
def ranges (first : ℕ) : Option (List (ℕ × ℕ)) :=
  if first < 0x20 then none
  else if first ≤ 0x7F then some []
  else if first < 0xC2 then none
  else if first ≤ 0xDF then some [(0x80, 0xBF)]
  else if first = 0xE0 then some [(0xA0, 0xBF), (0x80, 0xBF)]
  else if first ≤ 0xEC then some [(0x80, 0xBF), (0x80, 0xBF)]
  else if first = 0xED then some [(0x80, 0x9F), (0x80, 0xBF)]
  else if first ≤ 0xEF then some [(0x80, 0xBF), (0x80, 0xBF)]
  else if first = 0xF0 then some [(0x90, 0xBF), (0x80, 0xBF), (0x80, 0xBF)]
  else if first ≤ 0xF3 then some [(0x80, 0xBF), (0x80, 0xBF), (0x80, 0xBF)]
  else if first = 0xF4 then some [(0x80, 0x8F), (0x80, 0xBF), (0x80, 0xBF)]
  else none

/-- One turn of the loop of `scan_string` that does not end it: what is added to the buffer. -/
def scanCharacter (current : UInt8) (rest : Bytes) : Option (Bytes × Bytes) :=
  if current.toNat = 0x5C then scanEscape rest
  else do
    let ranges ← ranges current.toNat
    let (tail, rest) ← nextByteInRange ranges rest
    return (current :: tail, rest)

/-- The loop of `scan_string`, with a bound on its turns. -/
def scanStringLoop : ℕ → Bytes → Option (Bytes × Bytes)
  | 0, _ => none
  | _ + 1, [] => none
  | turns + 1, current :: rest =>
    if current.toNat = 0x22 then some ([], rest)
    else do
      let (added, rest) ← scanCharacter current rest
      let (buffer, rest) ← scanStringLoop turns rest
      return (added ++ buffer, rest)

/-- `scan_string`, behind the opening quote. A turn takes at least one byte. -/
def scanString (bytes : Bytes) : Option (Bytes × Bytes) :=
  scanStringLoop (bytes.length + 1) bytes

/-! ### Numbers -/

/-- The labels of `scan_number`. -/
inductive NumberState
  | minus
  | zero
  | any1
  | decimal1
  | decimal2
  | exponent
  | sign
  | any2
  deriving DecidableEq

/-- A decimal digit. -/
def isDigit (byte : UInt8) : Bool :=
  decide (0x30 ≤ byte.toNat ∧ byte.toNat ≤ 0x39)

/-- The letter of an exponent. -/
def isExponent (byte : UInt8) : Bool :=
  decide (byte.toNat = 0x65 ∨ byte.toNat = 0x45)

/-- The sign of an exponent. -/
def isSign (byte : UInt8) : Bool :=
  decide (byte.toNat = 0x2B ∨ byte.toNat = 0x2D)

/-- The first digit of a number, and the label behind it. -/
def leadDigit (byte : UInt8) : Option NumberState :=
  if byte.toNat = 0x30 then some .zero
  else if isDigit byte then some .any1
  else none

/-- The label after one more byte of a number, unless this is the default of the label. -/
def NumberState.next (byte : UInt8) : NumberState → Option NumberState
  | .minus => leadDigit byte
  | .zero =>
    if byte.toNat = 0x2E then some .decimal1
    else if isExponent byte then some .exponent
    else none
  | .any1 =>
    if isDigit byte then some .any1
    else if byte.toNat = 0x2E then some .decimal1
    else if isExponent byte then some .exponent
    else none
  | .decimal1 => if isDigit byte then some .decimal2 else none
  | .decimal2 =>
    if isDigit byte then some .decimal2
    else if isExponent byte then some .exponent
    else none
  | .exponent =>
    if isSign byte then some .sign
    else if isDigit byte then some .any2
    else none
  | .sign => if isDigit byte then some .any2 else none
  | .any2 => if isDigit byte then some .any2 else none

/-- The default of the label is `scan_number_done`, rather than an error. -/
def NumberState.isDone : NumberState → Bool
  | .zero | .any1 | .decimal2 | .any2 => true
  | .minus | .decimal1 | .exponent | .sign => false

/-- The `number_type` at a label, with the one before it. -/
def NumberState.type (before : NumberType) : NumberState → NumberType
  | .minus => .integer
  | .decimal1 | .exponent => .float
  | .zero | .any1 | .decimal2 | .sign | .any2 => before

/-- `scan_number` from one of its labels, with the `number_type` there: the type it ends with, the
text and what is left. The byte after the number is put back. -/
def scanNumberFrom (type : NumberType) (state : NumberState) :
    Bytes → Option (NumberType × Bytes × Bytes)
  | [] => if state.isDone then some (type, [], []) else none
  | byte :: rest =>
    match state.next byte with
    | some next =>
      (scanNumberFrom (next.type type) next rest).map fun read ↦
        (read.1, byte :: read.2.1, read.2.2)
    | none => if state.isDone then some (type, [], byte :: rest) else none

/-- The label behind the byte a number begins with. -/
def leadByte (current : UInt8) : Option NumberState :=
  if current.toNat = 0x2D then some .minus else leadDigit current

/-- `scan_number`, with the byte the token begins with. -/
def scanNumber (current : UInt8) (rest : Bytes) : Option (NumberType × Bytes × Bytes) := do
  let state ← leadByte current
  let (type, text, rest) ← scanNumberFrom (state.type .unsigned) state rest
  return (type, current :: text, rest)

/-- The value of decimal digits. -/
def decimal (digits : Bytes) : ℕ :=
  digits.foldl (fun value digit ↦ 10 * value + (digit.toNat - 0x30)) 0

/-- `std::strtoull` on digits, unless it sets `errno`. -/
def strtoull (text : Bytes) : Option UInt64 :=
  if decimal text < 2 ^ 64 then some (.ofNat (decimal text)) else none

/-- `std::strtoll` on a minus sign and digits, unless it sets `errno`. -/
def strtoll (text : Bytes) : Option Int64 :=
  if decimal text.tail ≤ 2 ^ 63 then some (.ofInt (-decimal text.tail)) else none

/-- The end of `scan_number`: an integer, if it is written as one and is in range, and else what
`strtod` makes of the text. -/
def convertNumber (strtod : Bytes → Double) (type : NumberType) (text : Bytes) : Number :=
  match type with
  | .unsigned => ((strtoull text).map .unsigned).getD (.float (strtod text))
  | .integer => ((strtoll text).map .integer).getD (.float (strtod text))
  | .float => .float (strtod text)

/-! ### Tokens -/

/-- The tokens of one byte. -/
def structuralToken (byte : UInt8) : Option Token :=
  match byte.toNat with
  | 0x5B => some .beginArray
  | 0x5D => some .endArray
  | 0x7B => some .beginObject
  | 0x7D => some .endObject
  | 0x3A => some .nameSeparator
  | 0x2C => some .valueSeparator
  | _ => none

/-- `scan_literal`: the rest of a literal. -/
def scanLiteral (literal : Bytes) (token : Token) (rest : Bytes) : Option (Token × Bytes) :=
  if literal.isPrefixOf rest then some (token, rest.drop literal.length) else none

/-- The token that begins with a byte. -/
def scanToken (current : UInt8) (rest : Bytes) : Option (Token × Bytes) :=
  match structuralToken current with
  | some token => some (token, rest)
  | none =>
    if current.toNat = 0x74 then scanLiteral (ascii "rue") .literalTrue rest
    else if current.toNat = 0x66 then scanLiteral (ascii "alse") .literalFalse rest
    else if current.toNat = 0x6E then scanLiteral (ascii "ull") .literalNull rest
    else if current.toNat = 0x22 then
      (scanString rest).map fun read ↦ (.valueString read.1, read.2)
    else if current.toNat = 0x2D ∨ isDigit current then
      (scanNumber current rest).map fun read ↦ (.valueNumber read.1 read.2.1, read.2.2)
    else if current.toNat = 0 then some (.endOfInput, rest)
    else none

/-- `scan`, behind the byte order mark: the next token and what is left of the input. A byte zero
is an end of the input like the real one. -/
def scan (bytes : Bytes) : Token × Bytes :=
  match bytes.dropWhile isBlank with
  | [] => (.endOfInput, [])
  | current :: rest => (scanToken current rest).getD (.parseError, rest)

/-- `skip_bom`. -/
def skipBom (bytes : Bytes) : Option Bytes :=
  if bytes.head? = some 0xEF then
    if [0xEF, 0xBB, 0xBF].isPrefixOf bytes then some (bytes.drop 3) else none
  else some bytes

end KoboldKhat.Parser
