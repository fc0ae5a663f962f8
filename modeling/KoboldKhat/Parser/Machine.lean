import KoboldKhat.Parser.Lexer
import Mathlib.Logic.Relation

/-!
# The loop of the JSON parser

`parser::sax_parse_internal` of `depend/nlohmann/json.hpp`, with the events handled by
`json_sax_dom_parser`: a loop with a stack of the arrays and objects that are open. The stack of
bits of the one and the stack of references of the other have the same height, and are one stack of
frames here. A frame of an object also holds the key the next value is for. In the source a value is
put into its parent when it begins and filled later; here when it is complete, which comes to the
same as every error throws. An object is a `std::map`, whose keys are in order and each of which has
the last value read for it.

A turn of the loop is `step`. It takes a byte of the input or ends a value, so that the loop ends
within a number of turns that the input bounds (`bound`). `parse` is `json::parse`: the loop, and
then no token but the end of the input. An exception is `none`.
-/

set_option autoImplicit false
set_option relaxedAutoImplicit false

namespace KoboldKhat.Parser

/-! ### Objects -/

/-- Assignment to the element of a `std::map` with a key. -/
def insert (key : Bytes) (value : Json) : List (Bytes × Json) → List (Bytes × Json)
  | [] => [(key, value)]
  | member :: members =>
    if key < member.1 then (key, value) :: member :: members
    else if key = member.1 then (key, value) :: members
    else member :: insert key value members

/-- The members of an object, from those read for it. -/
def collect (members : List (Bytes × Json)) : List (Bytes × Json) :=
  members.foldl (fun object member ↦ insert member.1 member.2 object) []

/-! ### The loop -/

/-- An array or an object that is open, with what has been read of it. -/
inductive Frame
  | array (elements : List Json)
  | object (members : List (Bytes × Json)) (key : Bytes)

/-- Where the loop stands: before its switch with the last token, or behind the switch, where a
value is complete. -/
inductive Phase
  | token (lastToken : Token)
  | complete (value : Json)

/-- The state of the loop. -/
structure State where
  /-- Where it stands. -/
  phase : Phase
  /-- What is left of the input. -/
  rest : Bytes
  /-- The arrays and objects that are open, the innermost first. -/
  frames : List Frame

/-- The state after `get_token` before a value. -/
def enter (bytes : Bytes) (frames : List Frame) : State :=
  ⟨.token (scan bytes).1, (scan bytes).2, frames⟩

/-- What a turn of the loop does: it throws, it returns a value, or it goes on. -/
inductive Turn
  | throws
  | returns (value : Json) (rest : Bytes)
  | goes (state : State)

/-- A key and its separator are read, and then the token behind them. -/
def readKey (token : Token) (rest : Bytes) (members : List (Bytes × Json)) (frames : List Frame) :
    Turn :=
  match token with
  | .valueString key =>
    if (scan rest).1 = .nameSeparator then
      .goes (enter (scan rest).2 (.object members key :: frames))
    else .throws
  | _ => .throws

section Loop

variable (strtod : Bytes → Double)

/-- The switch of the loop. -/
def switch (lastToken : Token) (rest : Bytes) (frames : List Frame) : Turn :=
  match lastToken with
  | .beginObject =>
    let (token, rest) := scan rest
    if token = .endObject then .goes ⟨.complete (.object []), rest, frames⟩
    else readKey token rest [] frames
  | .beginArray =>
    let (token, rest) := scan rest
    if token = .endArray then .goes ⟨.complete (.array []), rest, frames⟩
    else .goes ⟨.token token, rest, .array [] :: frames⟩
  | .valueNumber type text =>
    let number := convertNumber strtod type text
    if number.isFinite then .goes ⟨.complete (.number number), rest, frames⟩ else .throws
  | .valueString string => .goes ⟨.complete (.text string), rest, frames⟩
  | .literalFalse => .goes ⟨.complete (.boolean false), rest, frames⟩
  | .literalTrue => .goes ⟨.complete (.boolean true), rest, frames⟩
  | .literalNull => .goes ⟨.complete .null, rest, frames⟩
  | .endArray | .endObject | .nameSeparator | .valueSeparator | .parseError | .endOfInput => .throws

/-- What is behind the switch: a complete value is put into its parent, which may end with it. -/
def evaluate (value : Json) (rest : Bytes) : List Frame → Turn
  | [] => .returns value rest
  | .array elements :: frames =>
    let elements := elements ++ [value]
    let (token, rest) := scan rest
    if token = .valueSeparator then .goes (enter rest (.array elements :: frames))
    else if token = .endArray then .goes ⟨.complete (.array elements), rest, frames⟩
    else .throws
  | .object members key :: frames =>
    let members := insert key value members
    let (token, rest) := scan rest
    if token = .valueSeparator then readKey (scan rest).1 (scan rest).2 members frames
    else if token = .endObject then .goes ⟨.complete (.object members), rest, frames⟩
    else .throws

/-- One turn of the loop, up to the switch or behind it. -/
def step (state : State) : Turn :=
  match state.phase with
  | .token lastToken => switch strtod lastToken state.rest state.frames
  | .complete value => evaluate value state.rest state.frames

/-- The loop, with a bound on its turns. -/
def runLoop : ℕ → State → Option (Json × Bytes)
  | 0, _ => none
  | turns + 1, state =>
    match step strtod state with
    | .throws => none
    | .returns value rest => some (value, rest)
    | .goes next => runLoop turns next

/-- A bound on the turns from a state: each takes a byte, or ends a value. -/
def bound (state : State) : ℕ :=
  2 * state.rest.length +
    match state.phase with
    | .token lastToken => if lastToken = .endOfInput then 0 else 1
    | .complete _ => 0

/-- `sax_parse_internal` with the first token of some bytes. -/
def saxParse (bytes : Bytes) : Option (Json × Bytes) :=
  runLoop strtod (bound (enter bytes []) + 1) (enter bytes [])

/-- `json::parse`. -/
def parse (bytes : Bytes) : Option Json := do
  let bytes ← skipBom bytes
  let (value, rest) ← saxParse strtod bytes
  if (scan rest).1 = .endOfInput then some value else none

end Loop

end KoboldKhat.Parser
