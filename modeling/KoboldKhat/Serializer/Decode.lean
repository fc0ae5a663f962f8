import KoboldKhat.Library.Utf8
import KoboldKhat.Messages
import Mathlib.Data.List.GetD

/-!
# The UTF-8 decoder of the JSON library

`serializer::decode` of `depend/nlohmann/json.hpp` is a state machine in a table of 400 numbers: the
types of the 256 bytes, and for each of nine states and each type the next state. Two of the states
are `UTF8_ACCEPT`, between characters, and `UTF8_REJECT`; the others are inside a character, and
each of them waits for a byte of one range (`awaits`).

The bytes that take the machine from the end of one character to the end of the next, with the code
point it has then, are the encoding of a character and its number (`completes_iff_encodes`).
-/

set_option autoImplicit false
set_option relaxedAutoImplicit false

namespace KoboldKhat.Serializer

open Library

/-! ### The decoder -/

/-- `UTF8_ACCEPT`: a character has been read. -/
def utf8Accept : ℕ :=
  0

/-- `UTF8_REJECT`: the byte cannot stand there. -/
def utf8Reject : ℕ :=
  1

/-- The first part of the table of `decode`: the type of each byte. -/
def byteTypes : List ℕ :=
  List.replicate 128 0 ++ (List.replicate 16 1 ++ (List.replicate 16 9 ++ (List.replicate 32 7 ++
    ([8, 8] ++ (List.replicate 30 2 ++
    [0xA, 0x3, 0x3, 0x3, 0x3, 0x3, 0x3, 0x3, 0x3, 0x3, 0x3, 0x3, 0x3, 0x4, 0x3, 0x3,
      0xB, 0x6, 0x6, 0x6, 0x5, 0x8, 0x8, 0x8, 0x8, 0x8, 0x8, 0x8, 0x8, 0x8, 0x8, 0x8])))))

/-- The second part of the table of `decode`: for each state, the next state for each type. -/
def transitions : List ℕ :=
  [0x0, 0x1, 0x2, 0x3, 0x5, 0x8, 0x7, 0x1, 0x1, 0x1, 0x4, 0x6, 0x1, 0x1, 0x1, 0x1,
    1, 1, 1, 1, 1, 1, 1, 1, 1, 1, 1, 1, 1, 1, 1, 1,
    1, 0, 1, 1, 1, 1, 1, 0, 1, 0, 1, 1, 1, 1, 1, 1,
    1, 2, 1, 1, 1, 1, 1, 2, 1, 2, 1, 1, 1, 1, 1, 1,
    1, 1, 1, 1, 1, 1, 1, 2, 1, 1, 1, 1, 1, 1, 1, 1,
    1, 2, 1, 1, 1, 1, 1, 1, 1, 2, 1, 1, 1, 1, 1, 1,
    1, 1, 1, 1, 1, 1, 1, 3, 1, 3, 1, 1, 1, 1, 1, 1,
    1, 3, 1, 1, 1, 1, 1, 3, 1, 3, 1, 1, 1, 1, 1, 1,
    1, 3, 1, 1, 1, 1, 1, 1, 1, 1, 1, 1, 1, 1, 1, 1]

/-- The table of `decode`. -/
def utf8d : List ℕ :=
  byteTypes ++ transitions

/-- `decode`: the state and the code point after one more byte. The code point of a character has at
most 21 bits, so the shift loses none. -/
def decode (state codep : ℕ) (byte : UInt8) : ℕ × ℕ :=
  let type := utf8d.getD byte.toNat 0
  (utf8d.getD (256 + state * 16 + type) 0,
    if state ≠ utf8Accept then (byte.toNat &&& 0x3F) ||| (codep <<< 6)
    else (0xFF >>> type) &&& byte.toNat)

/-- The types of the bytes. -/
def byteType (byte : ℕ) : ℕ :=
  if byte ≤ 0x7F then 0
  else if byte ≤ 0x8F then 1
  else if byte ≤ 0x9F then 9
  else if byte ≤ 0xBF then 7
  else if byte ≤ 0xC1 then 8
  else if byte ≤ 0xDF then 2
  else if byte = 0xE0 then 0xA
  else if byte = 0xED then 4
  else if byte ≤ 0xEF then 3
  else if byte = 0xF0 then 0xB
  else if byte ≤ 0xF3 then 6
  else if byte = 0xF4 then 5
  else 8

theorem byteTypes_eq : byteTypes = (List.range 256).map byteType := by
  decide +kernel

theorem utf8d_byte (byte : UInt8) : utf8d.getD byte.toNat 0 = byteType byte.toNat := by
  have hbyte := byte.toNat_lt
  have hlength : byte.toNat < ((List.range 256).map byteType).length := by simpa using hbyte
  rw [utf8d, byteTypes_eq, List.getD_append _ _ _ _ hlength, List.getD_eq_getElem _ _ hlength,
    List.getElem_map, List.getElem_range]

theorem utf8d_transition (state type : ℕ) :
    utf8d.getD (256 + state * 16 + type) 0 = transitions.getD (state * 16 + type) 0 := by
  have hlength : byteTypes.length = 256 := by rw [byteTypes_eq, List.length_map, List.length_range]
  rw [utf8d, List.getD_append_right _ _ _ _ (by omega), hlength, Nat.add_assoc,
    Nat.add_sub_cancel_left]

/-- The state after the first byte of a character. -/
def leadState (byte : ℕ) : ℕ :=
  if byte ≤ 0x7F then utf8Accept
  else if byte ≤ 0xC1 then utf8Reject
  else if byte ≤ 0xDF then 2
  else if byte = 0xE0 then 4
  else if byte = 0xED then 5
  else if byte ≤ 0xEF then 3
  else if byte = 0xF0 then 6
  else if byte ≤ 0xF3 then 7
  else if byte = 0xF4 then 8
  else utf8Reject

/-- What a state inside a character waits for: the least and the greatest byte, and the state after
it. -/
def awaits : ℕ → ℕ × ℕ × ℕ
  | 2 => (0x80, 0xBF, utf8Accept)
  | 3 => (0x80, 0xBF, 2)
  | 4 => (0xA0, 0xBF, 2)
  | 5 => (0x80, 0x9F, 2)
  | 6 => (0x90, 0xBF, 3)
  | 7 => (0x80, 0xBF, 3)
  | 8 => (0x80, 0x8F, 3)
  | _ => (1, 0, utf8Reject)

theorem decode_accept_fst (codep : ℕ) (byte : UInt8) :
    (decode utf8Accept codep byte).1 = leadState byte.toNat := by
  have htable : ∀ byte < 256, transitions.getD (utf8Accept * 16 + byteType byte) 0 =
      leadState byte := by
    decide +kernel
  show utf8d.getD (256 + utf8Accept * 16 + utf8d.getD byte.toNat 0) 0 = _
  rw [utf8d_byte, utf8d_transition, htable _ byte.toNat_lt]

theorem decode_inside_fst {state : ℕ} (hinside : 2 ≤ state ∧ state ≤ 8) (codep : ℕ)
    (byte : UInt8) : (decode state codep byte).1 =
      if (awaits state).1 ≤ byte.toNat ∧ byte.toNat ≤ (awaits state).2.1 then (awaits state).2.2
      else utf8Reject := by
  have htable : ∀ state < 9, 2 ≤ state → ∀ byte < 256,
      transitions.getD (state * 16 + byteType byte) 0 =
        if (awaits state).1 ≤ byte ∧ byte ≤ (awaits state).2.1 then (awaits state).2.2
        else utf8Reject := by
    decide +kernel
  show utf8d.getD (256 + state * 16 + utf8d.getD byte.toNat 0) 0 = _
  rw [utf8d_byte, utf8d_transition, htable _ (by omega) hinside.1 _ byte.toNat_lt]

/-- The bits of the code point in the first byte of a character. -/
def leadBits (byte : ℕ) : ℕ :=
  if byte ≤ 0x7F then byte
  else if byte ≤ 0xDF then byte - 0xC0
  else if byte ≤ 0xEF then byte - 0xE0
  else byte - 0xF0

theorem decode_accept_snd (codep : ℕ) {byte : UInt8}
    (haccepted : leadState byte.toNat ≠ utf8Reject) :
    (decode utf8Accept codep byte).2 = leadBits byte.toNat := by
  have htable : ∀ byte < 256, leadState byte ≠ utf8Reject →
      (0xFF >>> byteType byte) &&& byte = leadBits byte := by
    decide +kernel
  show (0xFF >>> utf8d.getD byte.toNat 0) &&& byte.toNat = _
  rw [utf8d_byte, htable _ byte.toNat_lt haccepted]

theorem decode_inside_snd {state : ℕ} (hinside : 2 ≤ state) (codep : ℕ) {byte : UInt8}
    (htail : IsTail byte) :
    (decode state codep byte).2 = codep * 64 + (byte.toNat - 0x80) := by
  have hstate : state ≠ utf8Accept := by
    unfold utf8Accept
    omega
  have hbits : byte.toNat &&& 0x3F = byte.toNat - 0x80 := by
    unfold IsTail at htail
    rw [show (0x3F : ℕ) = 2 ^ 6 - 1 by rfl, Nat.and_two_pow_sub_one_eq_mod]
    omega
  have hsmall : byte.toNat - 0x80 < 2 ^ 6 := by
    unfold IsTail at htail
    omega
  show (if state ≠ utf8Accept then (byte.toNat &&& 0x3F) ||| (codep <<< 6) else _) = _
  rw [if_pos hstate, hbits, Nat.or_comm, ← Nat.shiftLeft_add_eq_or_of_lt hsmall, Nat.shiftLeft_eq]

/-! ### One character -/

/-- From a state and a code point, the decoder reads the bytes to the end of a character, and this
is its number. -/
def Completes : ℕ → ℕ → Bytes → ℕ → Prop
  | _, _, [], _ => False
  | state, codep, byte :: rest, number =>
    if (decode state codep byte).1 = utf8Accept then
      rest = [] ∧ number = (decode state codep byte).2
    else (decode state codep byte).1 ≠ utf8Reject ∧
      Completes (decode state codep byte).1 (decode state codep byte).2 rest number

section Completes

variable {codep number : ℕ} {bytes : Bytes}

/-- What a state inside a character waits for is a byte that can stand behind the first one. -/
theorem isTail_of_awaits {state : ℕ} (hinside : 2 ≤ state ∧ state ≤ 8) {byte : UInt8}
    (hlow : (awaits state).1 ≤ byte.toNat) (hhigh : byte.toNat ≤ (awaits state).2.1) :
    IsTail byte := by
  have hbounds : ∀ state < 9, 2 ≤ state →
      0x80 ≤ (awaits state).1 ∧ (awaits state).2.1 ≤ 0xBF := by
    decide
  obtain ⟨hleast, hgreatest⟩ := hbounds state (by omega) hinside.1
  exact ⟨Nat.le_trans hleast hlow, Nat.le_trans hhigh hgreatest⟩

/-- Inside a character the decoder reads a byte that is awaited, and goes on. -/
theorem completes_cons {state : ℕ} (hinside : 2 ≤ state ∧ state ≤ 8) {byte : UInt8} {rest : Bytes} :
    Completes state codep (byte :: rest) number ↔
      ((awaits state).1 ≤ byte.toNat ∧ byte.toNat ≤ (awaits state).2.1) ∧
        if (awaits state).2.2 = utf8Accept then
          rest = [] ∧ number = codep * 64 + (byte.toNat - 0x80)
        else Completes (awaits state).2.2 (codep * 64 + (byte.toNat - 0x80)) rest number := by
  have hnext : ∀ state < 9, 2 ≤ state → (awaits state).2.2 ≠ utf8Reject := by decide
  rw [Completes, decode_inside_fst hinside]
  by_cases hawaited : (awaits state).1 ≤ byte.toNat ∧ byte.toNat ≤ (awaits state).2.1
  · have htail := isTail_of_awaits hinside hawaited.1 hawaited.2
    rw [if_pos hawaited, decode_inside_snd hinside.1 codep htail]
    simp only [hawaited, and_self, true_and, hnext state (by omega) hinside.1, ne_eq,
      not_false_eq_true]
  · rw [if_neg hawaited]
    simp [hawaited, utf8Accept, utf8Reject]

/-- With one byte missing. -/
theorem completes_two_iff :
    Completes 2 codep bytes number ↔
      ∃ last, bytes = [last] ∧ IsTail last ∧ number = codep * 64 + (last.toNat - 0x80) := by
  cases bytes with
  | nil => exact iff_of_false id nofun
  | cons byte rest =>
    have hdone : (awaits 2).2.2 = utf8Accept := rfl
    rw [completes_cons (by omega), if_pos hdone]
    constructor
    · rintro ⟨htail, rfl, hnumber⟩
      exact ⟨byte, rfl, htail, hnumber⟩
    · rintro ⟨last, hbytes, htail, hnumber⟩
      obtain ⟨rfl, rfl⟩ := List.cons.inj hbytes
      exact ⟨htail, rfl, hnumber⟩

/-- With more than one byte missing. -/
theorem completes_inside_iff {state : ℕ} (hinside : 3 ≤ state ∧ state ≤ 8) :
    Completes state codep bytes number ↔
      ∃ byte rest, bytes = byte :: rest ∧
        ((awaits state).1 ≤ byte.toNat ∧ byte.toNat ≤ (awaits state).2.1) ∧
          Completes (awaits state).2.2 (codep * 64 + (byte.toNat - 0x80)) rest number := by
  have hnext : ∀ state < 9, 3 ≤ state → (awaits state).2.2 ≠ utf8Accept := by decide
  cases bytes with
  | nil => exact iff_of_false id nofun
  | cons byte rest =>
    rw [completes_cons (by omega), if_neg (hnext state (by omega) hinside.1)]
    constructor
    · intro hcompletes
      exact ⟨byte, rest, rfl, hcompletes⟩
    · rintro ⟨first, others, hbytes, hcompletes⟩
      obtain ⟨rfl, rfl⟩ := List.cons.inj hbytes
      exact hcompletes

/-- Between characters the decoder reads a whole character, or the first byte of one. -/
theorem completes_accept_cons {first : UInt8} {rest : Bytes} :
    Completes utf8Accept codep (first :: rest) number ↔
      if leadState first.toNat = utf8Accept then rest = [] ∧ number = leadBits first.toNat
      else leadState first.toNat ≠ utf8Reject ∧
        Completes (leadState first.toNat) (leadBits first.toNat) rest number := by
  rw [Completes, decode_accept_fst]
  by_cases hrejected : leadState first.toNat = utf8Reject
  · have hinside : leadState first.toNat ≠ utf8Accept := by
      rw [hrejected]
      decide
    simp [hrejected, utf8Accept, utf8Reject]
  · rw [decode_accept_snd codep hrejected]

/-- After the first byte of a longer character the decoder is inside the character. -/
theorem completes_accept_of_inside {first : UInt8} {rest : Bytes}
    (hinside : 2 ≤ leadState first.toNat) :
    Completes utf8Accept codep (first :: rest) number ↔
      Completes (leadState first.toNat) (leadBits first.toNat) rest number := by
  have hstate : leadState first.toNat ≠ utf8Accept ∧ leadState first.toNat ≠ utf8Reject := by
    unfold utf8Accept utf8Reject
    omega
  rw [completes_accept_cons, if_neg hstate.1, and_iff_right hstate.2]

/-- The first bytes of the characters of three bytes. -/
theorem leadState_three {byte : ℕ} (hlead : 0xE0 ≤ byte ∧ byte ≤ 0xEF) :
    (3 ≤ leadState byte ∧ leadState byte ≤ 8) ∧ leadBits byte = byte - 0xE0 ∧
      awaits (leadState byte) =
        (if byte = 0xE0 then 0xA0 else 0x80, if byte = 0xED then 0x9F else 0xBF, 2) := by
  have htable : ∀ byte < 0xF0, 0xE0 ≤ byte →
      (3 ≤ leadState byte ∧ leadState byte ≤ 8) ∧ leadBits byte = byte - 0xE0 ∧
        awaits (leadState byte) =
          (if byte = 0xE0 then 0xA0 else 0x80, if byte = 0xED then 0x9F else 0xBF, 2) := by
    decide +kernel
  exact htable byte (by omega) hlead.1

/-- The first bytes of the characters of four bytes. -/
theorem leadState_four {byte : ℕ} (hlead : 0xF0 ≤ byte ∧ byte ≤ 0xF4) :
    (3 ≤ leadState byte ∧ leadState byte ≤ 8) ∧ leadBits byte = byte - 0xF0 ∧
      awaits (leadState byte) =
        (if byte = 0xF0 then 0x90 else 0x80, if byte = 0xF4 then 0x8F else 0xBF, 3) := by
  have htable : ∀ byte < 0xF5, 0xF0 ≤ byte →
      (3 ≤ leadState byte ∧ leadState byte ≤ 8) ∧ leadBits byte = byte - 0xF0 ∧
        awaits (leadState byte) =
          (if byte = 0xF0 then 0x90 else 0x80, if byte = 0xF4 then 0x8F else 0xBF, 3) := by
    decide +kernel
  exact htable byte (by omega) hlead.1

/-- A character of one byte. -/
theorem completes_one_iff {first : UInt8} {rest : Bytes} (hlead : first.toNat ≤ 0x7F) :
    Completes utf8Accept codep (first :: rest) number ↔ rest = [] ∧ number = first.toNat := by
  have hstate : leadState first.toNat = utf8Accept := if_pos hlead
  have hbits : leadBits first.toNat = first.toNat := if_pos hlead
  rw [completes_accept_cons, if_pos hstate, hbits]

/-- A character of two bytes. -/
theorem completes_two_bytes_iff {first : UInt8} {rest : Bytes}
    (hlead : 0xC2 ≤ first.toNat ∧ first.toNat ≤ 0xDF) :
    Completes utf8Accept codep (first :: rest) number ↔
      ∃ second, rest = [second] ∧ IsTail second ∧
        number = (first.toNat - 0xC0) * 64 + (second.toNat - 0x80) := by
  have hstate : leadState first.toNat = 2 := by
    unfold leadState
    rw [if_neg (by omega), if_neg (by omega), if_pos hlead.2]
  have hbits : leadBits first.toNat = first.toNat - 0xC0 := by
    unfold leadBits
    rw [if_neg (by omega), if_pos hlead.2]
  rw [completes_accept_of_inside (by omega), hstate, hbits, completes_two_iff]

/-- A character of three bytes. -/
theorem completes_three_bytes_iff {first : UInt8} {rest : Bytes}
    (hlead : 0xE0 ≤ first.toNat ∧ first.toNat ≤ 0xEF) :
    Completes utf8Accept codep (first :: rest) number ↔
      ∃ second third, rest = [second, third] ∧ (IsTail second ∧ IsTail third) ∧
        (first.toNat = 0xE0 → 0xA0 ≤ second.toNat) ∧ (first.toNat = 0xED → second.toNat ≤ 0x9F) ∧
        number = ((first.toNat - 0xE0) * 64 + (second.toNat - 0x80)) * 64 +
          (third.toNat - 0x80) := by
  obtain ⟨hinside, hbits, hawaits⟩ := leadState_three hlead
  rw [completes_accept_of_inside (by omega), completes_inside_iff hinside, hbits, hawaits]
  constructor
  · rintro ⟨second, rest, rfl, hsecond, hlast⟩
    obtain ⟨third, rfl, hthird, hnumber⟩ := completes_two_iff.mp hlast
    have hrange : IsTail second ∧ (first.toNat = 0xE0 → 0xA0 ≤ second.toNat) ∧
        (first.toNat = 0xED → second.toNat ≤ 0x9F) := by
      unfold IsTail
      dsimp only at hsecond
      split_ifs at hsecond <;> omega
    exact ⟨second, third, rfl, ⟨hrange.1, hthird⟩, hrange.2.1, hrange.2.2, hnumber⟩
  · rintro ⟨second, third, rfl, ⟨hsecond, hthird⟩, hshortest, hscalar, hnumber⟩
    refine ⟨second, [third], rfl, ?_, completes_two_iff.mpr ⟨third, rfl, hthird, hnumber⟩⟩
    unfold IsTail at hsecond
    dsimp only
    split_ifs <;> omega

/-- A character of four bytes. -/
theorem completes_four_bytes_iff {first : UInt8} {rest : Bytes}
    (hlead : 0xF0 ≤ first.toNat ∧ first.toNat ≤ 0xF4) :
    Completes utf8Accept codep (first :: rest) number ↔
      ∃ second third fourth, rest = [second, third, fourth] ∧
        (IsTail second ∧ IsTail third ∧ IsTail fourth) ∧
        (first.toNat = 0xF0 → 0x90 ≤ second.toNat) ∧ (first.toNat = 0xF4 → second.toNat ≤ 0x8F) ∧
        number = (((first.toNat - 0xF0) * 64 + (second.toNat - 0x80)) * 64 +
          (third.toNat - 0x80)) * 64 + (fourth.toNat - 0x80) := by
  obtain ⟨hinside, hbits, hawaits⟩ := leadState_four hlead
  have hthree : 3 ≤ 3 ∧ 3 ≤ 8 := by decide
  rw [completes_accept_of_inside (by omega), completes_inside_iff hinside, hbits, hawaits]
  constructor
  · rintro ⟨second, rest, rfl, hsecond, hlater⟩
    obtain ⟨third, rest, rfl, hthird, hlast⟩ := (completes_inside_iff hthree).mp hlater
    obtain ⟨fourth, rfl, hfourth, hnumber⟩ := completes_two_iff.mp hlast
    have hrange : IsTail second ∧ (first.toNat = 0xF0 → 0x90 ≤ second.toNat) ∧
        (first.toNat = 0xF4 → second.toNat ≤ 0x8F) := by
      unfold IsTail
      dsimp only at hsecond
      split_ifs at hsecond <;> omega
    exact ⟨second, third, fourth, rfl, ⟨hrange.1, hthird, hfourth⟩, hrange.2.1, hrange.2.2,
      hnumber⟩
  · rintro ⟨second, third, fourth, rfl, ⟨hsecond, hthird, hfourth⟩, hshortest, hscalar, hnumber⟩
    have hlast := completes_two_iff.mpr ⟨fourth, rfl, hfourth, hnumber⟩
    have hlater := (completes_inside_iff hthree).mpr ⟨third, [fourth], rfl, hthird, hlast⟩
    refine ⟨second, [third, fourth], rfl, ?_, hlater⟩
    unfold IsTail at hsecond
    dsimp only
    split_ifs <;> omega

/-- No character begins with a byte in between, or past the last. -/
theorem not_completes_of_lead {first : UInt8} {rest : Bytes}
    (hlead : 0x80 ≤ first.toNat ∧ first.toNat ≤ 0xC1 ∨ 0xF5 ≤ first.toNat) :
    ¬ Completes utf8Accept codep (first :: rest) number := by
  have hstate : leadState first.toNat = utf8Reject := by
    unfold leadState
    split_ifs <;> omega
  rw [completes_accept_cons, hstate]
  exact fun hcompletes ↦ hcompletes.1 rfl

/-- What the decoder reads to its end from a state between characters are the characters. -/
theorem completes_iff_encodes : Completes utf8Accept codep bytes number ↔ Encodes bytes number := by
  constructor
  · intro hcompletes
    cases bytes with
    | nil => exact hcompletes.elim
    | cons first rest =>
      by_cases hone : first.toNat ≤ 0x7F
      · obtain ⟨rfl, hnumber⟩ := (completes_one_iff hone).mp hcompletes
        exact .one hone hnumber
      by_cases htwo : 0xC2 ≤ first.toNat ∧ first.toNat ≤ 0xDF
      · obtain ⟨second, rfl, htail, hnumber⟩ := (completes_two_bytes_iff htwo).mp hcompletes
        exact .two htwo htail hnumber
      by_cases hthree : 0xE0 ≤ first.toNat ∧ first.toNat ≤ 0xEF
      · obtain ⟨second, third, rfl, htails, hshortest, hscalar, hnumber⟩ :=
          (completes_three_bytes_iff hthree).mp hcompletes
        exact .three hthree htails hshortest hscalar hnumber
      by_cases hfour : 0xF0 ≤ first.toNat ∧ first.toNat ≤ 0xF4
      · obtain ⟨second, third, fourth, rfl, htails, hshortest, hscalar, hnumber⟩ :=
          (completes_four_bytes_iff hfour).mp hcompletes
        exact .four hfour htails hshortest hscalar hnumber
      · exact absurd hcompletes (not_completes_of_lead (by omega))
  · intro hencodes
    cases hencodes with
    | one small value => exact (completes_one_iff small).mpr ⟨rfl, value⟩
    | two lead tail value => exact (completes_two_bytes_iff lead).mpr ⟨_, rfl, tail, value⟩
    | three lead tails shortest scalar value =>
      exact (completes_three_bytes_iff lead).mpr ⟨_, _, rfl, tails, shortest, scalar, value⟩
    | four lead tails shortest scalar value =>
      exact (completes_four_bytes_iff lead).mpr ⟨_, _, _, rfl, tails, shortest, scalar, value⟩

end Completes

end KoboldKhat.Serializer
