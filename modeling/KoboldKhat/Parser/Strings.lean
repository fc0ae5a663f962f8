import KoboldKhat.Parser.Lexer
import Mathlib.Algebra.Group.Nat.Defs
import Mathlib.Data.List.Forall2

/-!
# The strings the lexer reads

`StringText` relates what stands between two quotes to the string it stands for: characters as they
are, but no control characters, escapes of one letter, escapes of four digits, and pairs of these
for the characters past the first plane. `scan_string` takes the texts of strings, each for its
string, and nothing else (`scanString_eq_some_iff`): a turn of its loop takes one character or one
escape (`scanCharacter_eq_some_iff`), the code point of an escape is encoded as the characters are
(`encodes_addCodepoint`), and the ranges of bytes it checks are those of the characters
(`exists_encodes_of_ranges`, `exists_ranges_of_encodes`). All these strings are valid UTF-8
(`isUtf8_of_stringText`), which is why no string that is parsed makes the serializer throw.
-/

set_option autoImplicit false
set_option relaxedAutoImplicit false

namespace KoboldKhat.Parser

open Library

/-! ### The grammar -/

/-- Four hexadecimal digits and their number. -/
inductive FourDigits : Bytes → ℕ → Prop
  | intro {first second third fourth : UInt8} {one two three four : ℕ}
      (hfirst : hexValue first = some one) (hsecond : hexValue second = some two)
      (hthird : hexValue third = some three) (hfourth : hexValue fourth = some four) :
      FourDigits [first, second, third, fourth]
        (one * 0x1000 + two * 0x0100 + three * 0x0010 + four)

/-- The number of a pair of surrogates. -/
def pairNumber (high low : ℕ) : ℕ :=
  0x10000 + (high - 0xD800) * 0x400 + (low - 0xDC00)

/-- An escape behind its backslash, and the bytes it stands for. -/
inductive EscapeText : Bytes → Bytes → Prop
  | simple {letter byte : UInt8} (known : simpleEscape letter = some byte) :
      EscapeText [letter] [byte]
  | unicode {digits bytes : Bytes} {codepoint : ℕ} (number : FourDigits digits codepoint)
      (encodes : Encodes bytes codepoint) :
      EscapeText (ascii "u" ++ digits) bytes
  | pair {digits others bytes : Bytes} {high low : ℕ} (first : FourDigits digits high)
      (second : FourDigits others low) (isHigh : 0xD800 ≤ high ∧ high ≤ 0xDBFF)
      (isLow : 0xDC00 ≤ low ∧ low ≤ 0xDFFF) (encodes : Encodes bytes (pairNumber high low)) :
      EscapeText (ascii "u" ++ digits ++ ascii "\\u" ++ others) bytes

/-- One character or one escape in a string, and the bytes it stands for. -/
inductive CharacterText : Bytes → Bytes → Prop
  | plain {bytes : Bytes} {number : ℕ} (encodes : Encodes bytes number)
      (allowed : 0x20 ≤ number ∧ number ≠ 0x22 ∧ number ≠ 0x5C) : CharacterText bytes bytes
  | escape {text bytes : Bytes} (known : EscapeText text bytes) :
      CharacterText (ascii "\\" ++ text) bytes

/-- What stands between the quotes of a string, and the string. -/
inductive StringText : Bytes → Bytes → Prop
  | nil : StringText [] []
  | cons {text bytes later string : Bytes} (first : CharacterText text bytes)
      (rest : StringText later string) : StringText (text ++ later) (bytes ++ string)

/-! ### Code points -/

section CodePoints

variable {number other : ℕ} {bytes others digits rest : Bytes}

/-- A number has one encoding. -/
theorem encodes_unique (hencodes : Encodes bytes number) (hother : Encodes others number) :
    bytes = others :=
  hencodes.utf8EncodeChar_ofNat.symm.trans hother.utf8EncodeChar_ofNat

/-- The bits above and the bits below together. -/
theorem or_toNat {bits low : ℕ} (hlow : low < 2 ^ bits) (high : ℕ)
    (hbyte : 2 ^ bits * high + low < 256) :
    (2 ^ bits * high ||| low).toUInt8.toNat = 2 ^ bits * high + low := by
  rw [← Nat.two_pow_add_eq_or_of_lt hlow, Nat.toUInt8_eq, UInt8.toNat_ofNat', Nat.mod_eq_of_lt]
  exact hbyte

/-- The last six bits of a number behind the bit of a tail. -/
theorem tail_toNat (number : ℕ) :
    (0x80 ||| (number &&& 0x3F)).toUInt8.toNat = 0x80 + number % 64 := by
  have hmask : number &&& 0x3F = number % 64 := Nat.and_two_pow_sub_one_eq_mod number 6
  rw [hmask]
  exact @or_toNat 7 (number % 64) (by omega) 1 (by omega)

/-- The bytes that are added for a code point encode it. -/
theorem encodes_addCodepoint (hvalid : number.isValidChar) :
    Encodes (addCodepoint number) number := by
  unfold Nat.isValidChar at hvalid
  unfold addCodepoint
  simp only [Nat.shiftRight_eq_div_pow, Nat.reducePow]
  split_ifs with hone htwo hthree
  · have hbyte : number.toUInt8.toNat = number := by
      rw [Nat.toUInt8_eq, UInt8.toNat_ofNat', Nat.mod_eq_of_lt (by omega)]
    exact .one (by omega) hbyte.symm
  · have hlead : (0xC0 ||| number / 64).toUInt8.toNat = 0xC0 + number / 64 :=
      @or_toNat 6 (number / 64) (by omega) 3 (by omega)
    apply Encodes.two
    all_goals simp only [IsTail, tail_toNat, hlead]
    all_goals omega
  · have hlead : (0xE0 ||| number / 4096).toUInt8.toNat = 0xE0 + number / 4096 :=
      @or_toNat 5 (number / 4096) (by omega) 7 (by omega)
    apply Encodes.three
    all_goals simp only [IsTail, tail_toNat, hlead]
    all_goals omega
  · have hlead : (0xF0 ||| number / 262144).toUInt8.toNat = 0xF0 + number / 262144 :=
      @or_toNat 4 (number / 262144) (by omega) 15 (by omega)
    apply Encodes.four
    all_goals simp only [IsTail, tail_toNat, hlead]
    all_goals omega

/-- Four digits make no number past 16 bits. -/
theorem FourDigits.number_lt (hdigits : FourDigits digits number) : number < 0x10000 := by
  have hdigit : ∀ {digit : UInt8} {value : ℕ}, hexValue digit = some value → value < 0x10 := by
    intro digit value hvalue
    unfold hexValue at hvalue
    split_ifs at hvalue <;> simp only [Option.some.injEq] at hvalue <;> omega
  cases hdigits with
  | intro hfirst hsecond hthird hfourth =>
    have hone := hdigit hfirst
    have htwo := hdigit hsecond
    have hthree := hdigit hthird
    have hfour := hdigit hfourth
    omega

/-- `get_codepoint` takes four digits. -/
theorem getCodepoint_eq_some_iff :
    getCodepoint bytes = some (number, rest) ↔
      ∃ digits, bytes = digits ++ rest ∧ FourDigits digits number := by
  constructor
  · intro hread
    unfold getCodepoint at hread
    split at hread
    · simp only [Option.bind_eq_bind, Option.bind_eq_some_iff, Option.pure_def] at hread
      obtain ⟨one, hone, two, htwo, three, hthree, four, hfour, hread⟩ := hread
      obtain ⟨rfl, rfl⟩ := Prod.mk.inj (Option.some.inj hread)
      exact ⟨_, rfl, .intro hone htwo hthree hfour⟩
    · cases hread
  · rintro ⟨digits, rfl, hdigits⟩
    cases hdigits with
    | intro hfirst hsecond hthird hfourth =>
      simp [getCodepoint, hfirst, hsecond, hthird, hfourth]

end CodePoints

/-! ### Escapes -/

section Escapes

variable {bytes text rest added : Bytes}

/-- An escape of digits is taken behind its first letter. -/
theorem exists_escapeText_of_scanUnicode (hscan : scanUnicode bytes = some (added, rest)) :
    ∃ text, bytes = text ++ rest ∧ EscapeText (ascii "u" ++ text) added := by
  simp only [scanUnicode, Option.bind_eq_bind, Option.bind_eq_some_iff] at hscan
  obtain ⟨⟨high, behind⟩, hhigh, hscan⟩ := hscan
  obtain ⟨digits, rfl, hdigits⟩ := getCodepoint_eq_some_iff.mp hhigh
  dsimp only at hscan
  split_ifs at hscan with hsurrogate hbegins hlone
  · obtain ⟨others, rfl⟩ := List.isPrefixOf_iff_prefix.mp hbegins
    have hdrop : (ascii "\\u" ++ others).drop 2 = others := rfl
    rw [hdrop, Option.bind_eq_some_iff] at hscan
    obtain ⟨⟨low, remaining⟩, hlow, hscan⟩ := hscan
    obtain ⟨lowDigits, rfl, hlowDigits⟩ := getCodepoint_eq_some_iff.mp hlow
    dsimp only at hscan
    split_ifs at hscan with hsecond
    obtain ⟨rfl, rfl⟩ := Prod.mk.inj (Option.some.inj hscan)
    have hnumber : (high <<< 10) + low - 0x35FDC00 = pairNumber high low := by
      unfold pairNumber
      rw [Nat.shiftLeft_eq]
      omega
    have hvalid : (pairNumber high low).isValidChar := by
      unfold Nat.isValidChar pairNumber
      omega
    refine ⟨digits ++ ascii "\\u" ++ lowDigits, by simp, ?_⟩
    rw [hnumber, ← List.append_assoc, ← List.append_assoc]
    exact .pair hdigits hlowDigits hsurrogate hsecond (encodes_addCodepoint hvalid)
  · obtain ⟨rfl, rfl⟩ := Prod.mk.inj (Option.some.inj hscan)
    refine ⟨digits, rfl, .unicode hdigits (encodes_addCodepoint ?_)⟩
    have hrange := hdigits.number_lt
    unfold Nat.isValidChar
    omega

/-- An escape of digits is taken, with anything behind it. -/
theorem scanUnicode_of_encodes {digits : Bytes} {codepoint : ℕ}
    (hdigits : FourDigits digits codepoint) (hencodes : Encodes added codepoint) (rest : Bytes) :
    scanUnicode (digits ++ rest) = some (added, rest) := by
  have hread := getCodepoint_eq_some_iff.mpr ⟨digits, @rfl _ (digits ++ rest), hdigits⟩
  have hvalid := hencodes.isValidChar
  have hscalar := hvalid
  unfold Nat.isValidChar at hscalar
  simp only [scanUnicode, hread, Option.bind_eq_bind, Option.bind_some]
  rw [if_neg (by omega), if_neg (by omega),
    encodes_unique (encodes_addCodepoint hvalid) hencodes]

/-- A pair of surrogates is taken, with anything behind it. -/
theorem scanUnicode_of_pair {digits others : Bytes} {high low : ℕ}
    (hdigits : FourDigits digits high) (hothers : FourDigits others low)
    (hhigh : 0xD800 ≤ high ∧ high ≤ 0xDBFF) (hlow : 0xDC00 ≤ low ∧ low ≤ 0xDFFF)
    (hencodes : Encodes added (pairNumber high low)) (rest : Bytes) :
    scanUnicode (digits ++ (ascii "\\u" ++ (others ++ rest))) = some (added, rest) := by
  have hfirst := getCodepoint_eq_some_iff.mpr
    ⟨digits, @rfl _ (digits ++ (ascii "\\u" ++ (others ++ rest))), hdigits⟩
  have hsecond := getCodepoint_eq_some_iff.mpr ⟨others, @rfl _ (others ++ rest), hothers⟩
  have hbegins : (ascii "\\u").isPrefixOf (ascii "\\u" ++ (others ++ rest)) = true :=
    List.isPrefixOf_iff_prefix.mpr (List.prefix_append _ _)
  have hdrop : (ascii "\\u" ++ (others ++ rest)).drop 2 = others ++ rest := rfl
  have hnumber : (high <<< 10) + low - 0x35FDC00 = pairNumber high low := by
    unfold pairNumber
    rw [Nat.shiftLeft_eq]
    omega
  simp only [scanUnicode, hfirst, Option.bind_eq_bind, Option.bind_some]
  rw [if_pos hhigh, if_pos hbegins, hdrop, hsecond, Option.bind_some, if_pos hlow, hnumber,
    encodes_unique (encodes_addCodepoint hencodes.isValidChar) hencodes]

/-- Escapes are taken, and nothing else behind a backslash. -/
theorem scanEscape_eq_some_iff :
    scanEscape bytes = some (added, rest) ↔
      ∃ text, bytes = text ++ rest ∧ EscapeText text added := by
  constructor
  · intro hscan
    cases bytes with
    | nil => cases hscan
    | cons letter later =>
      rw [scanEscape] at hscan
      by_cases hunicode : letter.toNat = 0x75
      · rw [if_pos hunicode] at hscan
        obtain ⟨text, rfl, htext⟩ := exists_escapeText_of_scanUnicode hscan
        have hletter : [letter] = ascii "u" :=
          congrArg (fun byte ↦ [byte]) (UInt8.toNat_inj.mp hunicode)
        refine ⟨letter :: text, rfl, ?_⟩
        rw [← hletter] at htext
        exact htext
      · rw [if_neg hunicode, Option.map_eq_some_iff] at hscan
        obtain ⟨byte, hbyte, hread⟩ := hscan
        obtain ⟨rfl, rfl⟩ := Prod.mk.inj hread
        exact ⟨[letter], rfl, .simple hbyte⟩
  · rintro ⟨text, rfl, htext⟩
    cases htext with
    | @simple letter byte known =>
      have hletter : letter.toNat ≠ 0x75 := by
        intro hunicode
        simp [simpleEscape, hunicode] at known
      rw [List.singleton_append, scanEscape, if_neg hletter, known]
      rfl
    | unicode number encodes => exact scanUnicode_of_encodes number encodes rest
    | pair first second isHigh isLow encodes =>
      rw [List.append_assoc, List.append_assoc, List.append_assoc]
      exact scanUnicode_of_pair first second isHigh isLow encodes rest

end Escapes

/-! ### Characters -/

section Characters

variable {bytes tail rest added : Bytes} {current : UInt8} {bounds : List (ℕ × ℕ)}

/-- A byte in a range. -/
def InRange (range : ℕ × ℕ) (byte : UInt8) : Prop :=
  range.1 ≤ byte.toNat ∧ byte.toNat ≤ range.2

/-- `next_byte_in_range` takes one byte for each range. -/
theorem nextByteInRange_eq_some_iff :
    nextByteInRange bounds bytes = some (tail, rest) ↔
      bytes = tail ++ rest ∧ List.Forall₂ InRange bounds tail := by
  induction bounds generalizing bytes tail with
  | nil =>
    simp only [nextByteInRange, Option.some.injEq, Prod.mk.injEq, List.forall₂_nil_left_iff]
    constructor
    · rintro ⟨rfl, rfl⟩
      exact ⟨rfl, rfl⟩
    · rintro ⟨rfl, rfl⟩
      exact ⟨rfl, rfl⟩
  | cons range bounds ih =>
    rw [List.forall₂_cons_left_iff]
    cases bytes with
    | nil =>
      refine iff_of_false (fun hread ↦ by cases hread) ?_
      rintro ⟨hbytes, byte, others, -, -, rfl⟩
      cases hbytes
    | cons byte later =>
      rw [nextByteInRange]
      by_cases hrange : range.1 ≤ byte.toNat ∧ byte.toNat ≤ range.2
      · rw [if_pos hrange, Option.map_eq_some_iff]
        constructor
        · rintro ⟨⟨others, remaining⟩, hread, hsame⟩
          obtain ⟨rfl, rfl⟩ := Prod.mk.inj hsame
          obtain ⟨rfl, hothers⟩ := ih.mp hread
          exact ⟨rfl, byte, others, hrange, hothers, rfl⟩
        · rintro ⟨hbytes, first, others, -, hothers, rfl⟩
          obtain ⟨rfl, rfl⟩ := List.cons.inj hbytes
          exact ⟨(others, rest), ih.mpr ⟨rfl, hothers⟩, rfl⟩
      · rw [if_neg hrange]
        refine iff_of_false (fun hread ↦ by cases hread) ?_
        rintro ⟨hbytes, first, others, hfirst, -, rfl⟩
        obtain ⟨rfl, rfl⟩ := List.cons.inj hbytes
        exact hrange hfirst

theorem ranges_one {first : ℕ} (hlead : first ≤ 0x7F) :
    ranges first = if first < 0x20 then none else some [] := by
  unfold ranges
  rw [if_pos hlead]

theorem ranges_two {first : ℕ} (hlead : 0xC2 ≤ first ∧ first ≤ 0xDF) :
    ranges first = some [(0x80, 0xBF)] := by
  unfold ranges
  rw [if_neg (by omega), if_neg (by omega), if_neg (by omega), if_pos hlead.2]

theorem ranges_three {first : ℕ} (hlead : 0xE0 ≤ first ∧ first ≤ 0xEF) :
    ranges first = some [(if first = 0xE0 then 0xA0 else 0x80, if first = 0xED then 0x9F else 0xBF),
      (0x80, 0xBF)] := by
  have htable : ∀ first < 0xF0, 0xE0 ≤ first → ranges first =
      some [(if first = 0xE0 then 0xA0 else 0x80, if first = 0xED then 0x9F else 0xBF),
        (0x80, 0xBF)] := by
    decide +kernel
  exact htable first (by omega) hlead.1

theorem ranges_four {first : ℕ} (hlead : 0xF0 ≤ first ∧ first ≤ 0xF4) :
    ranges first = some [(if first = 0xF0 then 0x90 else 0x80, if first = 0xF4 then 0x8F else 0xBF),
      (0x80, 0xBF), (0x80, 0xBF)] := by
  have htable : ∀ first < 0xF5, 0xF0 ≤ first → ranges first =
      some [(if first = 0xF0 then 0x90 else 0x80, if first = 0xF4 then 0x8F else 0xBF),
        (0x80, 0xBF), (0x80, 0xBF)] := by
    decide +kernel
  exact htable first (by omega) hlead.1

theorem ranges_none {first : ℕ} (hlead : 0x80 ≤ first ∧ first ≤ 0xC1 ∨ 0xF5 ≤ first) :
    ranges first = none := by
  unfold ranges
  rw [if_neg (by omega), if_neg (by omega)]
  rcases hlead with hlow | hhigh
  · rw [if_pos (by omega)]
  · simp only [show ¬ first < 0xC2 by omega, show ¬ first ≤ 0xDF by omega,
      show first ≠ 0xE0 by omega, show ¬ first ≤ 0xEC by omega, show first ≠ 0xED by omega,
      show ¬ first ≤ 0xEF by omega, show first ≠ 0xF0 by omega, show ¬ first ≤ 0xF3 by omega,
      show first ≠ 0xF4 by omega, if_false]

/-- The bytes in the ranges behind a first byte make a character, and one that is no control
character. -/
theorem exists_encodes_of_ranges (hranges : ranges current.toNat = some bounds)
    (htail : List.Forall₂ InRange bounds tail) :
    ∃ number, Encodes (current :: tail) number ∧ 0x20 ≤ number ∧
      (number = current.toNat ∨ 0x80 ≤ number) := by
  by_cases hone : current.toNat ≤ 0x7F
  · rw [ranges_one hone] at hranges
    split_ifs at hranges with hcontrol
    obtain rfl := Option.some.inj hranges
    obtain rfl := List.forall₂_nil_left_iff.mp htail
    exact ⟨current.toNat, .one hone rfl, by omega, .inl rfl⟩
  by_cases htwo : 0xC2 ≤ current.toNat ∧ current.toNat ≤ 0xDF
  · rw [ranges_two htwo] at hranges
    obtain rfl := Option.some.inj hranges
    simp only [List.forall₂_cons_left_iff, List.forall₂_nil_left_iff, InRange] at htail
    obtain ⟨second, _, hsecond, rfl, rfl⟩ := htail
    refine ⟨_, .two htwo hsecond rfl, ?_⟩
    omega
  by_cases hthree : 0xE0 ≤ current.toNat ∧ current.toNat ≤ 0xEF
  · rw [ranges_three hthree] at hranges
    obtain rfl := Option.some.inj hranges
    simp only [List.forall₂_cons_left_iff, List.forall₂_nil_left_iff, InRange] at htail
    obtain ⟨second, _, hsecond, ⟨third, _, hthird, rfl, rfl⟩, rfl⟩ := htail
    have hrange : IsTail second ∧ (current.toNat = 0xE0 → 0xA0 ≤ second.toNat) ∧
        (current.toNat = 0xED → second.toNat ≤ 0x9F) := by
      unfold IsTail
      split_ifs at hsecond <;> omega
    refine ⟨_, .three hthree ⟨hrange.1, hthird⟩ hrange.2.1 hrange.2.2 rfl, ?_⟩
    have hfollows := hrange.1
    unfold IsTail at hfollows
    omega
  by_cases hfour : 0xF0 ≤ current.toNat ∧ current.toNat ≤ 0xF4
  · rw [ranges_four hfour] at hranges
    obtain rfl := Option.some.inj hranges
    simp only [List.forall₂_cons_left_iff, List.forall₂_nil_left_iff, InRange] at htail
    obtain ⟨second, _, hsecond, ⟨third, _, hthird, ⟨fourth, _, hfourth, rfl, rfl⟩, rfl⟩, rfl⟩ :=
      htail
    have hrange : IsTail second ∧ (current.toNat = 0xF0 → 0x90 ≤ second.toNat) ∧
        (current.toNat = 0xF4 → second.toNat ≤ 0x8F) := by
      unfold IsTail
      split_ifs at hsecond <;> omega
    refine ⟨_, .four hfour ⟨hrange.1, hthird, hfourth⟩ hrange.2.1 hrange.2.2 rfl, ?_⟩
    have hfollows := hrange.1
    unfold IsTail at hfollows
    omega
  · rw [ranges_none (by omega)] at hranges
    cases hranges

/-- A character other than a control character is a first byte with bytes in its ranges. -/
theorem exists_ranges_of_encodes {number : ℕ} (hencodes : Encodes bytes number)
    (hallowed : 0x20 ≤ number) :
    ∃ current tail bounds, bytes = current :: tail ∧ ranges current.toNat = some bounds ∧
      List.Forall₂ InRange bounds tail ∧ (number = current.toNat ∨ 0x80 ≤ current.toNat) := by
  cases hencodes with
  | @one _ first small value =>
    refine ⟨first, [], [], rfl, ?_, .nil, .inl value⟩
    rw [ranges_one small, if_neg (by omega)]
  | @two _ first second lead tail value =>
    exact ⟨first, [second], _, rfl, ranges_two lead, .cons tail .nil, .inr (by omega)⟩
  | @three _ first second third lead tails shortest scalar value =>
    refine ⟨first, [second, third], _, rfl, ranges_three lead, .cons ?_ (.cons tails.2 .nil),
      .inr (by omega)⟩
    unfold InRange
    obtain ⟨hfollows, -⟩ := tails
    unfold IsTail at hfollows
    dsimp only
    split_ifs <;> omega
  | @four _ first second third fourth lead tails shortest scalar value =>
    refine ⟨first, [second, third, fourth], _, rfl, ranges_four lead,
      .cons ?_ (.cons tails.2.1 (.cons tails.2.2 .nil)), .inr (by omega)⟩
    unfold InRange
    obtain ⟨hfollows, -⟩ := tails
    unfold IsTail at hfollows
    dsimp only
    split_ifs <;> omega

/-- A turn of the loop of `scan_string` takes a character or an escape. -/
theorem scanCharacter_eq_some_iff (hquote : current.toNat ≠ 0x22) :
    scanCharacter current bytes = some (added, rest) ↔
      ∃ text, current :: bytes = text ++ rest ∧ CharacterText text added := by
  rw [scanCharacter]
  by_cases hreverse : current.toNat = 0x5C
  · rw [if_pos hreverse, scanEscape_eq_some_iff]
    have hcurrent : ascii "\\" = [current] :=
      congrArg (fun byte ↦ [byte]) (UInt8.toNat_inj.mp hreverse.symm)
    constructor
    · rintro ⟨text, rfl, htext⟩
      refine ⟨ascii "\\" ++ text, by rw [hcurrent]; rfl, .escape htext⟩
    · rintro ⟨text, htext, hcharacter⟩
      cases hcharacter with
      | @plain bytes number encodes allowed =>
        obtain ⟨first, tail, bounds, rfl, -, -, hnumber⟩ :=
          exists_ranges_of_encodes encodes allowed.1
        obtain ⟨rfl, -⟩ := List.cons.inj htext
        omega
      | @escape text bytes known =>
        rw [hcurrent] at htext
        exact ⟨text, (List.cons.inj htext).2, known⟩
  · rw [if_neg hreverse]
    simp only [Option.bind_eq_bind, Option.bind_eq_some_iff, Option.pure_def]
    constructor
    · rintro ⟨bounds, hbounds, ⟨tail, remaining⟩, htail, hread⟩
      obtain ⟨rfl, rfl⟩ := Prod.mk.inj (Option.some.inj hread)
      obtain ⟨rfl, hinside⟩ := nextByteInRange_eq_some_iff.mp htail
      obtain ⟨number, hencodes, hallowed, hnumber⟩ := exists_encodes_of_ranges hbounds hinside
      refine ⟨current :: tail, rfl, .plain hencodes ?_⟩
      omega
    · rintro ⟨text, htext, hcharacter⟩
      cases hcharacter with
      | @plain bytes number encodes allowed =>
        obtain ⟨first, tail, bounds, rfl, hbounds, hinside, -⟩ :=
          exists_ranges_of_encodes encodes allowed.1
        obtain ⟨rfl, rfl⟩ := List.cons.inj htext
        exact ⟨bounds, hbounds, (tail, rest), nextByteInRange_eq_some_iff.mpr ⟨rfl, hinside⟩, rfl⟩
      | @escape text bytes known =>
        obtain ⟨rfl, -⟩ := List.cons.inj htext
        exact absurd rfl hreverse

/-- What a turn takes is not empty, and does not begin with a quote. -/
theorem CharacterText.cons {text : Bytes} (hcharacter : CharacterText text added) :
    ∃ first later, text = first :: later ∧ first.toNat ≠ 0x22 := by
  cases hcharacter with
  | @plain bytes number encodes allowed =>
    obtain ⟨first, tail, bounds, rfl, -, -, hnumber⟩ := exists_ranges_of_encodes encodes allowed.1
    exact ⟨first, tail, rfl, by omega⟩
  | @escape text bytes known => exact ⟨0x5C, text, rfl, by decide⟩

end Characters

/-! ### The loop -/

section Loop

variable {bytes text string rest : Bytes} {turns : ℕ}

/-- What the loop of `scan_string` takes is the text of a string and a quote. -/
theorem exists_stringText_of_loop (hscan : scanStringLoop turns bytes = some (string, rest)) :
    ∃ text, bytes = text ++ ascii "\"" ++ rest ∧ StringText text string := by
  induction turns generalizing bytes string with
  | zero => cases hscan
  | succ turns ih =>
    cases bytes with
    | nil => cases hscan
    | cons current bytes =>
      rw [scanStringLoop] at hscan
      by_cases hquote : current.toNat = 0x22
      · rw [if_pos hquote] at hscan
        obtain ⟨rfl, rfl⟩ := Prod.mk.inj (Option.some.inj hscan)
        have hcurrent : ascii "\"" = [current] :=
          congrArg (fun byte ↦ [byte]) (UInt8.toNat_inj.mp hquote.symm)
        exact ⟨[], by rw [hcurrent]; rfl, .nil⟩
      · rw [if_neg hquote] at hscan
        simp only [Option.bind_eq_bind, Option.bind_eq_some_iff, Option.pure_def] at hscan
        obtain ⟨⟨added, behind⟩, hfirst, ⟨buffer, remaining⟩, hlater, hread⟩ := hscan
        obtain ⟨rfl, rfl⟩ := Prod.mk.inj (Option.some.inj hread)
        obtain ⟨text, htext, hcharacter⟩ := (scanCharacter_eq_some_iff hquote).mp hfirst
        obtain ⟨later, rfl, hstring⟩ := ih hlater
        exact ⟨text ++ later, by simp [htext], .cons hcharacter hstring⟩

/-- The loop takes the text of a string and a quote, if it has enough turns. -/
theorem scanStringLoop_of_stringText (hstring : StringText text string) (rest : Bytes)
    (hturns : text.length < turns) :
    scanStringLoop turns (text ++ ascii "\"" ++ rest) = some (string, rest) := by
  induction hstring generalizing turns with
  | nil =>
    obtain ⟨turns, rfl⟩ := Nat.exists_eq_succ_of_ne_zero (by omega : turns ≠ 0)
    rfl
  | @cons text bytes later string first _ ih =>
    obtain ⟨current, tail, rfl, hquote⟩ := first.cons
    rw [List.length_append, List.length_cons] at hturns
    obtain ⟨turns, rfl⟩ := Nat.exists_eq_succ_of_ne_zero (by omega : turns ≠ 0)
    have hfirst : scanCharacter current (tail ++ (later ++ ascii "\"" ++ rest)) =
        some (bytes, later ++ ascii "\"" ++ rest) :=
      (scanCharacter_eq_some_iff hquote).mpr ⟨current :: tail, rfl, first⟩
    have hsplit : current :: tail ++ later ++ ascii "\"" ++ rest =
        current :: (tail ++ (later ++ ascii "\"" ++ rest)) := by simp
    rw [hsplit, scanStringLoop, if_neg hquote, hfirst]
    simp only [Option.bind_eq_bind, Option.bind_some, ih (by omega : later.length < turns),
      Option.pure_def]

/-- `scan_string` takes the texts of strings up to the quote, and nothing else. -/
theorem scanString_eq_some_iff :
    scanString bytes = some (string, rest) ↔
      ∃ text, bytes = text ++ ascii "\"" ++ rest ∧ StringText text string := by
  constructor
  · exact exists_stringText_of_loop
  · rintro ⟨text, rfl, hstring⟩
    refine scanStringLoop_of_stringText hstring rest ?_
    rw [List.length_append, List.length_append]
    omega

end Loop

/-! ### Valid strings -/

/-- What an escape stands for is valid. -/
theorem EscapeText.isUtf8 {text bytes : Bytes} (hescape : EscapeText text bytes) :
    IsUtf8 bytes := by
  cases hescape with
  | @simple letter byte known =>
    refine isUtf8_of_ascii fun other hother ↦ ?_
    rw [List.mem_singleton.mp hother]
    unfold simpleEscape at known
    split at known <;> cases known <;> decide
  | unicode number encodes => exact List.append_nil bytes ▸ .append encodes .nil
  | pair first second isHigh isLow encodes => exact List.append_nil bytes ▸ .append encodes .nil

/-- A string that is parsed is valid. -/
theorem isUtf8_of_stringText {text string : Bytes} (hstring : StringText text string) :
    IsUtf8 string := by
  induction hstring with
  | nil => exact .nil
  | cons first _ ih =>
    cases first with
    | plain encodes => exact .append encodes ih
    | escape known => exact known.isUtf8.concat ih

end KoboldKhat.Parser
