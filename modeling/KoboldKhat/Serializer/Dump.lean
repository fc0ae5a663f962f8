import KoboldKhat.Serializer.Decode
import Mathlib.Data.Int.Notation

/-!
# The serializer of the JSON library

`dump_escaped` and `dump` of `depend/nlohmann/json.hpp`, with the arguments `basic_json::dump` has
by default: no indentation, no escapes of characters outside ASCII, and an exception on bytes that
are not UTF-8. What is in the buffer is what is written in the end, unless there is an exception.
Integers are written by `dump_integer`; the text that `to_chars` makes of a `double` is a
parameter.

The loop of `dump_escaped` runs the decoder over the string and writes a byte as soon as it has been
accepted. Character by character this is the string with each of its bytes escaped
(`dumpEscaped_of_isUtf8`), and there is an exception exactly when the bytes are not those of
characters (`dumpEscaped_eq_none_iff`). A whole value is written exactly when all its strings are
valid, the keys of its objects among them (`dump_isSome_iff`).
-/

set_option autoImplicit false
set_option relaxedAutoImplicit false

namespace KoboldKhat.Serializer

open Library

/-! ### Strings -/

/-- A hexadecimal digit. -/
def hexDigit (digit : ℕ) : UInt8 :=
  if digit < 10 then (48 + digit).toUInt8 else (87 + digit).toUInt8

/-- The format `%04x`. -/
def hexFour (number : ℕ) : Bytes :=
  [number / 4096 % 16, number / 256 % 16, number / 16 % 16, number % 16].map hexDigit

/-- What `dump_escaped` writes for the last byte of a character with a code point. -/
def escapeAccepted (codepoint : ℕ) (byte : UInt8) : Bytes :=
  match codepoint with
  | 0x08 => ascii "\\b"
  | 0x09 => ascii "\\t"
  | 0x0A => ascii "\\n"
  | 0x0C => ascii "\\f"
  | 0x0D => ascii "\\r"
  | 0x22 => ascii "\\\""
  | 0x5C => ascii "\\\\"
  | _ => if codepoint ≤ 0x1F then ascii "\\u" ++ hexFour codepoint else [byte]

/-- The loop of `dump_escaped` from a state of the decoder. It throws on a byte that is rejected and
on a string that ends inside a character. -/
def dumpEscapedFrom (state codepoint : ℕ) : Bytes → Option Bytes
  | [] => if state = utf8Accept then some [] else none
  | byte :: rest =>
    let (state, codepoint) := decode state codepoint byte
    if state = utf8Accept then
      (dumpEscapedFrom state codepoint rest).map (escapeAccepted codepoint byte ++ ·)
    else if state = utf8Reject then none
    else (dumpEscapedFrom state codepoint rest).map (byte :: ·)

/-- `dump_escaped`. -/
def dumpEscaped (string : Bytes) : Option Bytes :=
  dumpEscapedFrom utf8Accept 0 string

/-- A string in its quotes. -/
def dumpString (string : Bytes) : Option Bytes :=
  (dumpEscaped string).map fun text ↦ ascii "\"" ++ text ++ ascii "\""

/-! ### Valid strings -/

/-- The bytes of a character as they are written: all but the last as they are. -/
def escapeLast (number : ℕ) : Bytes → Bytes
  | [] => []
  | [byte] => escapeAccepted number byte
  | byte :: rest => byte :: escapeLast number rest

/-- What a byte of a valid string becomes. -/
def escapeByte (byte : UInt8) : Bytes :=
  escapeAccepted byte.toNat byte

/-- No character outside ASCII is escaped. -/
theorem escapeAccepted_of_large {number : ℕ} (hlarge : 0x80 ≤ number) (byte : UInt8) :
    escapeAccepted number byte = [byte] := by
  unfold escapeAccepted
  split
  all_goals try omega
  rw [if_neg (by omega)]

/-- A character outside ASCII is written as it is. -/
theorem escapeLast_of_large {number : ℕ} (hlarge : 0x80 ≤ number) (bytes : Bytes) :
    escapeLast number bytes = bytes := by
  fun_induction escapeLast number bytes with
  | case1 => rfl
  | case2 byte => exact escapeAccepted_of_large hlarge byte
  | case3 byte rest _ ih => rw [ih]

/-- Bytes that are written as they are. -/
theorem flatMap_escapeByte_eq_self {bytes : Bytes}
    (hbytes : ∀ byte ∈ bytes, escapeByte byte = [byte]) : bytes.flatMap escapeByte = bytes := by
  rw [List.flatMap_congr hbytes, List.flatMap_singleton']

/-- The bytes of a character are escaped one by one. -/
theorem escapeLast_of_encodes {bytes : Bytes} {number : ℕ} (hencodes : Encodes bytes number) :
    escapeLast number bytes = bytes.flatMap escapeByte := by
  rcases hencodes.ascii_or_large with ⟨byte, rfl, hnumber⟩ | ⟨hnumber, hbytes⟩
  · rw [hnumber]
    exact (List.flatMap_singleton escapeByte byte).symm
  · have hescaped : bytes.flatMap escapeByte = bytes :=
      flatMap_escapeByte_eq_self fun byte hbyte ↦ escapeAccepted_of_large (hbytes byte hbyte) byte
    rw [escapeLast_of_large hnumber, hescaped]

section Loop

variable {state codepoint number : ℕ} {bytes text : Bytes}

/-- Between characters the code point does not matter. -/
theorem dumpEscapedFrom_accept (codepoint : ℕ) (bytes : Bytes) :
    dumpEscapedFrom utf8Accept codepoint bytes = dumpEscaped bytes := by
  cases bytes with
  | nil => rfl
  | cons byte rest => rfl

/-- The loop writes a character that is complete, and goes on behind it. -/
theorem dumpEscapedFrom_append (hcompletes : Completes state codepoint bytes number)
    (rest : Bytes) :
    dumpEscapedFrom state codepoint (bytes ++ rest) =
      (dumpEscaped rest).map (escapeLast number bytes ++ ·) := by
  induction bytes generalizing state codepoint with
  | nil => exact hcompletes.elim
  | cons byte bytes ih =>
    rw [Completes] at hcompletes
    rw [List.cons_append, dumpEscapedFrom]
    split_ifs at hcompletes with haccepted
    · obtain ⟨rfl, hnumber⟩ := hcompletes
      simp only [haccepted, if_true, dumpEscapedFrom_accept, ← hnumber]
      rfl
    · obtain ⟨hvalid, hrest⟩ := hcompletes
      simp only [haccepted, hvalid, if_false, ih hrest, Option.map_map]
      cases bytes with
      | nil => exact hrest.elim
      | cons next bytes => rfl

/-- What the loop writes to the end begins with a character that is complete. -/
theorem exists_completes_of_dumpEscapedFrom
    (hwritten : dumpEscapedFrom state codepoint bytes = some text)
    (hopen : state ≠ utf8Accept ∨ bytes ≠ []) :
    ∃ front rest number, bytes = front ++ rest ∧ Completes state codepoint front number := by
  induction bytes generalizing state codepoint text with
  | nil =>
    rw [dumpEscapedFrom] at hwritten
    split_ifs at hwritten with haccepted
    exact absurd rfl (hopen.resolve_left (not_not.mpr haccepted))
  | cons byte bytes ih =>
    rw [dumpEscapedFrom] at hwritten
    by_cases haccepted : (decode state codepoint byte).1 = utf8Accept
    · refine ⟨[byte], bytes, (decode state codepoint byte).2, rfl, ?_⟩
      rw [Completes, if_pos haccepted]
      exact ⟨rfl, rfl⟩
    · by_cases hrejected : (decode state codepoint byte).1 = utf8Reject
      · simp [hrejected, utf8Accept, utf8Reject] at hwritten
      · simp only [haccepted, hrejected, if_false, Option.map_eq_some_iff] at hwritten
        obtain ⟨later, hlater, -⟩ := hwritten
        obtain ⟨front, rest, number, rfl, hcompletes⟩ := ih hlater (.inl haccepted)
        refine ⟨byte :: front, rest, number, rfl, ?_⟩
        rw [Completes, if_neg haccepted]
        exact ⟨hrejected, hcompletes⟩

end Loop

/-- A valid string is written byte by byte. -/
theorem dumpEscaped_of_isUtf8 {string : Bytes} (hvalid : IsUtf8 string) :
    dumpEscaped string = some (string.flatMap escapeByte) := by
  refine @IsUtf8.induction (fun string ↦ dumpEscaped string = some (string.flatMap escapeByte))
    rfl ?_ string hvalid
  intro bytes number rest hencodes ih
  have hcompletes : Completes utf8Accept 0 bytes number := completes_iff_encodes.mpr hencodes
  rw [dumpEscaped, dumpEscapedFrom_append hcompletes, ih, escapeLast_of_encodes hencodes,
    List.flatMap_append]
  rfl

/-- A string that is written is valid. -/
theorem isUtf8_of_dumpEscaped {string text : Bytes} (hwritten : dumpEscaped string = some text) :
    IsUtf8 string := by
  induction hlength : string.length using Nat.strongRecOn generalizing string text with
  | ind length ih =>
    by_cases hempty : string = []
    · rw [hempty]
      exact .nil
    · obtain ⟨front, rest, number, rfl, hcompletes⟩ :=
        exists_completes_of_dumpEscapedFrom hwritten (.inr hempty)
      have hencodes := completes_iff_encodes.mp hcompletes
      rw [dumpEscaped, dumpEscapedFrom_append hcompletes, Option.map_eq_some_iff] at hwritten
      obtain ⟨later, hlater, -⟩ := hwritten
      have hshorter : rest.length < length := by
        rw [← hlength, List.length_append]
        exact Nat.lt_add_of_pos_left hencodes.length_pos
      exact .append hencodes (ih rest.length hshorter hlater rfl)

/-- `dump_escaped` throws exactly on a string that is not valid. -/
theorem dumpEscaped_eq_none_iff (string : Bytes) : dumpEscaped string = none ↔ ¬ IsUtf8 string := by
  by_cases hvalid : IsUtf8 string
  · simp [dumpEscaped_of_isUtf8 hvalid, hvalid]
  · refine iff_of_true ?_ hvalid
    rw [Option.eq_none_iff_forall_ne_some]
    exact fun text hwritten ↦ hvalid (isUtf8_of_dumpEscaped hwritten)

/-! ### Numbers -/

/-- The character of a decimal digit. -/
def decimalDigit (value : ℕ) : UInt8 :=
  (0x30 + value).toUInt8

/-- The entries of `digits_to_99`. -/
def digitsTo99 (value : ℕ) : Bytes :=
  [decimalDigit (value / 10), decimalDigit (value % 10)]

/-- The loop of `dump_integer`, and the one or two digits behind it: from the last digits on. -/
def dumpDigits (absValue : ℕ) : Bytes :=
  if absValue ≥ 100 then dumpDigits (absValue / 100) ++ digitsTo99 (absValue % 100)
  else if absValue ≥ 10 then digitsTo99 absValue
  else [decimalDigit absValue]

/-- `dump_integer`. -/
def dumpInteger (value : ℤ) : Bytes :=
  if value = 0 then ascii "0"
  else if value < 0 then ascii "-" ++ dumpDigits value.natAbs
  else dumpDigits value.natAbs

/-- `dump_float`. -/
def dumpFloat (toChars : Double → Bytes) (value : Double) : Bytes :=
  if value.isFinite then toChars value else ascii "null"

/-- `dump` for the three kinds of number. -/
def dumpNumber (toChars : Double → Bytes) : Number → Bytes
  | .unsigned value => dumpInteger value.toNat
  | .integer value => dumpInteger value.toInt
  | .float value => dumpFloat toChars value

/-! ### Values -/

mutual

/-- `dump`. -/
def dump (toChars : Double → Bytes) : Json → Option Bytes
  | .null => some (ascii "null")
  | .boolean value => some (if value then ascii "true" else ascii "false")
  | .number number => some (dumpNumber toChars number)
  | .text value => dumpString value
  | .array elements => (dumpElements toChars elements).map fun texts ↦
      ascii "[" ++ List.intercalate (ascii ",") texts ++ ascii "]"
  | .object members => (dumpMembers toChars members).map fun texts ↦
      ascii "\x7b" ++ List.intercalate (ascii ",") texts ++ ascii "\x7d"

/-- The elements of an array. -/
def dumpElements (toChars : Double → Bytes) : List Json → Option (List Bytes)
  | [] => some []
  | value :: elements => do
    let text ← dump toChars value
    let texts ← dumpElements toChars elements
    return text :: texts

/-- The members of an object. -/
def dumpMembers (toChars : Double → Bytes) : List (Bytes × Json) → Option (List Bytes)
  | [] => some []
  | (key, value) :: members => do
    let name ← dumpString key
    let text ← dump toChars value
    let texts ← dumpMembers toChars members
    return (name ++ ascii ":" ++ text) :: texts

end

mutual

/-- The strings of a value: its texts, and the keys of its objects. -/
def strings : Json → List Bytes
  | .text value => [value]
  | .array elements => stringsOfElements elements
  | .object members => stringsOfMembers members
  | _ => []

/-- The strings of the elements of an array. -/
def stringsOfElements : List Json → List Bytes
  | [] => []
  | value :: elements => strings value ++ stringsOfElements elements

/-- The strings of the members of an object. -/
def stringsOfMembers : List (Bytes × Json) → List Bytes
  | [] => []
  | (key, value) :: members => key :: strings value ++ stringsOfMembers members

end

/-- All strings are valid. -/
def AllUtf8 (strings : List Bytes) : Prop :=
  ∀ string ∈ strings, IsUtf8 string

theorem allUtf8_append (first second : List Bytes) :
    AllUtf8 (first ++ second) ↔ AllUtf8 first ∧ AllUtf8 second :=
  List.forall_mem_append

theorem dumpString_isSome_iff (string : Bytes) :
    (dumpString string).isSome ↔ IsUtf8 string := by
  rw [dumpString, Option.isSome_map, ← not_iff_not, ← dumpEscaped_eq_none_iff,
    Option.not_isSome_iff_eq_none]

mutual

/-- A value is written exactly when its strings are valid. -/
theorem dump_isSome_iff (toChars : Double → Bytes) (value : Json) :
    (dump toChars value).isSome ↔ AllUtf8 (strings value) := by
  cases value with
  | null => simp [dump, strings, AllUtf8]
  | boolean value => simp [dump, strings, AllUtf8]
  | number => simp [dump, strings, AllUtf8]
  | text value => simp [dump, strings, AllUtf8, dumpString_isSome_iff]
  | array elements =>
    rw [dump, strings, Option.isSome_map]
    exact dumpElements_isSome_iff toChars elements
  | object members =>
    rw [dump, strings, Option.isSome_map]
    exact dumpMembers_isSome_iff toChars members

/-- The elements of an array are written exactly when their strings are valid. -/
theorem dumpElements_isSome_iff (toChars : Double → Bytes) (elements : List Json) :
    (dumpElements toChars elements).isSome ↔ AllUtf8 (stringsOfElements elements) := by
  cases elements with
  | nil => simp [dumpElements, stringsOfElements, AllUtf8]
  | cons value elements =>
    rw [stringsOfElements, allUtf8_append, ← dump_isSome_iff toChars value,
      ← dumpElements_isSome_iff toChars elements, dumpElements]
    cases dump toChars value with
    | none => simp
    | some text => cases dumpElements toChars elements <;> simp

/-- The members of an object are written exactly when their strings are valid. -/
theorem dumpMembers_isSome_iff (toChars : Double → Bytes) (members : List (Bytes × Json)) :
    (dumpMembers toChars members).isSome ↔ AllUtf8 (stringsOfMembers members) := by
  cases members with
  | nil => simp [dumpMembers, stringsOfMembers, AllUtf8]
  | cons member members =>
    obtain ⟨key, value⟩ := member
    rw [stringsOfMembers, allUtf8_append, ← dumpMembers_isSome_iff toChars members, dumpMembers]
    have hkey : AllUtf8 (key :: strings value) ↔ IsUtf8 key ∧ AllUtf8 (strings value) :=
      List.forall_mem_cons
    rw [hkey, ← dump_isSome_iff toChars value, ← dumpString_isSome_iff key]
    cases dumpString key with
    | none => simp
    | some name =>
      cases dump toChars value with
      | none => simp
      | some text => cases dumpMembers toChars members <;> simp

end

/-- A serializer throws exactly on the values with a string that is not valid. -/
def ThrowsOnInvalid (dump : Json → Option Bytes) : Prop :=
  ∀ value, dump value = none ↔ ∃ string ∈ strings value, ¬ IsUtf8 string

/-- The serializer of the library does. -/
theorem dump_throwsOnInvalid (toChars : Double → Bytes) : ThrowsOnInvalid (dump toChars) := by
  intro value
  rw [← Option.not_isSome_iff_eq_none, dump_isSome_iff]
  simp only [AllUtf8, not_forall, exists_prop]

/-! ### The envelope -/

/-- The strings of an envelope are those the client puts into it, and its keys. -/
theorem exists_invalid_envelope_iff (username message : Bytes) :
    (∃ string ∈ strings (envelope username message), ¬ IsUtf8 string) ↔
      ¬ (IsUtf8 username ∧ IsUtf8 message) := by
  have hkeys : IsUtf8 (ascii "message") ∧ IsUtf8 (ascii "username") :=
    ⟨⟨"message".toList, by decide⟩, ⟨"username".toList, by decide⟩⟩
  have hstrings : strings (envelope username message) =
      [ascii "message", message, ascii "username", username] := rfl
  rw [hstrings]
  simp only [List.mem_cons, List.not_mem_nil, or_false, exists_eq_or_imp, exists_eq_left, hkeys,
    not_true_eq_false, false_or]
  rw [not_and_or]
  exact Or.comm

/-- What the client writes for valid strings: both of them, escaped byte by byte. -/
theorem dump_envelope {username message : Bytes} (husername : IsUtf8 username)
    (hmessage : IsUtf8 message) (toChars : Double → Bytes) :
    dump toChars (envelope username message) =
      some (ascii "\x7b\"message\":\"" ++ message.flatMap escapeByte ++
        ascii "\",\"username\":\"" ++ username.flatMap escapeByte ++ ascii "\"\x7d") := by
  have hkeys : dumpString (ascii "message") = some (ascii "\"message\"") ∧
      dumpString (ascii "username") = some (ascii "\"username\"") := by decide
  have hvalue : ∀ string, IsUtf8 string → dump toChars (.text string) =
      some (ascii "\"" ++ string.flatMap escapeByte ++ ascii "\"") := by
    intro string hvalid
    rw [dump, dumpString, dumpEscaped_of_isUtf8 hvalid]
    rfl
  rw [envelope, dump]
  simp only [dumpMembers, hkeys, hvalue _ husername, hvalue _ hmessage]
  simp [List.intercalate, ascii]

/-- A byte of ASCII that is written as it is. -/
def IsPlain (byte : UInt8) : Prop :=
  (0x20 ≤ byte.toNat ∧ byte.toNat ≤ 0x7F) ∧ byte.toNat ≠ 0x22 ∧ byte.toNat ≠ 0x5C

theorem escapeByte_of_isPlain {byte : UInt8} (hplain : IsPlain byte) :
    escapeByte byte = [byte] := by
  obtain ⟨⟨hlow, -⟩, hquote, hreverse⟩ := hplain
  unfold escapeByte escapeAccepted
  split
  all_goals try omega
  rw [if_neg (by omega)]

/-- A string of plain bytes is written as it is. -/
theorem flatMap_escapeByte_of_plain {string : Bytes} (hplain : ∀ byte ∈ string, IsPlain byte) :
    string.flatMap escapeByte = string :=
  flatMap_escapeByte_eq_self fun byte hbyte ↦ escapeByte_of_isPlain (hplain byte hbyte)

/-- A string of plain bytes is valid. -/
theorem isUtf8_of_plain {string : Bytes} (hplain : ∀ byte ∈ string, IsPlain byte) :
    IsUtf8 string :=
  isUtf8_of_ascii fun byte hbyte ↦ (hplain byte hbyte).1.2

end KoboldKhat.Serializer
