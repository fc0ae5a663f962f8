import KoboldKhat.Parser.Lexer

/-!
# The numbers the lexer reads

`NumberText` is the grammar of numbers: a sign, an integer without leading zeros, a fraction and an
exponent, all but the integer optional. A label of `scan_number` stands for what can be left of a
number there (`NumberState.Accepts`), and the labels follow each other as the grammar does, byte by
byte (`accepts_nil_iff`, `accepts_cons_iff`). So what `scan_number` takes is a number
(`numberText_of_scanNumber`), and it takes a number to its end when the byte behind it does not
continue it (`scanNumber_of_numberText`).

The type that the labels have given the number by then is that of its text: a double with a fraction
or an exponent, and else an integer, signed with a sign (`textType`). `numberOf` is the value.
-/

set_option autoImplicit false
set_option relaxedAutoImplicit false

namespace KoboldKhat.Parser

/-! ### Shapes of texts -/

/-- A byte of a class, then a text. -/
def One (kind : UInt8 → Bool) (text : Bytes → Prop) (bytes : Bytes) : Prop :=
  ∃ byte rest, bytes = byte :: rest ∧ kind byte = true ∧ text rest

/-- Any number of bytes of a class, then a text. -/
def Many (kind : UInt8 → Bool) (text : Bytes → Prop) (bytes : Bytes) : Prop :=
  ∃ front rest, bytes = front ++ rest ∧ (∀ byte ∈ front, kind byte = true) ∧ text rest

section Shapes

variable {kind : UInt8 → Bool} {text : Bytes → Prop} {byte : UInt8} {bytes : Bytes}

@[simp]
theorem not_one_nil : ¬ One kind text [] := by
  rintro ⟨byte, rest, hbytes, -⟩
  cases hbytes

@[simp]
theorem one_cons_iff : One kind text (byte :: bytes) ↔ kind byte = true ∧ text bytes := by
  constructor
  · rintro ⟨first, rest, hbytes, hclass, hrest⟩
    obtain ⟨rfl, rfl⟩ := List.cons.inj hbytes
    exact ⟨hclass, hrest⟩
  · rintro ⟨hclass, hrest⟩
    exact ⟨byte, bytes, rfl, hclass, hrest⟩

@[simp]
theorem many_nil_iff : Many kind text [] ↔ text [] := by
  constructor
  · rintro ⟨front, rest, hbytes, -, hrest⟩
    obtain ⟨-, rfl⟩ := List.append_eq_nil_iff.mp hbytes.symm
    exact hrest
  · intro hrest
    exact ⟨[], [], rfl, fun byte hbyte ↦ absurd hbyte List.not_mem_nil, hrest⟩

theorem many_cons_iff :
    Many kind text (byte :: bytes) ↔
      kind byte = true ∧ Many kind text bytes ∨ text (byte :: bytes) := by
  constructor
  · rintro ⟨front, rest, hbytes, hclass, hrest⟩
    cases front with
    | nil =>
      rw [List.nil_append] at hbytes
      exact .inr (hbytes ▸ hrest)
    | cons first front =>
      obtain ⟨rfl, rfl⟩ := List.cons.inj hbytes
      obtain ⟨hfirst, hfront⟩ := List.forall_mem_cons.mp hclass
      exact .inl ⟨hfirst, front, rest, rfl, hfront, hrest⟩
  · rintro (⟨hfirst, front, rest, rfl, hfront, hrest⟩ | hrest)
    · exact ⟨byte :: front, rest, rfl, List.forall_mem_cons.mpr ⟨hfirst, hfront⟩, hrest⟩
    · exact ⟨[], byte :: bytes, rfl, fun other hother ↦ absurd hother List.not_mem_nil, hrest⟩

end Shapes

/-! ### The grammar -/

/-- Digits to the end. -/
def DigitsText : Bytes → Prop :=
  Many isDigit (· = [])

/-- What can be behind the integer and the fraction of a number. -/
def ExponentText (bytes : Bytes) : Prop :=
  bytes = [] ∨
    One isExponent
      (fun rest ↦ One isSign (One isDigit DigitsText) rest ∨ One isDigit DigitsText rest) bytes

/-- A decimal point. -/
def isPoint (byte : UInt8) : Bool :=
  decide (byte.toNat = 0x2E)

/-- What can be behind the integer of a number. -/
def FractionText (bytes : Bytes) : Prop :=
  One isPoint (One isDigit (Many isDigit ExponentText)) bytes ∨ ExponentText bytes

/-- A number without its sign: no digit but a lone zero begins with a zero. -/
def UnsignedText (bytes : Bytes) : Prop :=
  One (fun byte ↦ decide (byte.toNat = 0x30)) FractionText bytes ∨
    One (fun byte ↦ decide (0x31 ≤ byte.toNat ∧ byte.toNat ≤ 0x39))
      (Many isDigit FractionText) bytes

/-- The grammar of numbers. -/
def NumberText (bytes : Bytes) : Prop :=
  One (fun byte ↦ decide (byte.toNat = 0x2D)) UnsignedText bytes ∨ UnsignedText bytes

/-- What is left of a number behind a label of `scan_number`. -/
def NumberState.Accepts : NumberState → Bytes → Prop
  | .minus => UnsignedText
  | .zero => FractionText
  | .any1 => Many isDigit FractionText
  | .decimal1 => One isDigit (Many isDigit ExponentText)
  | .decimal2 => Many isDigit ExponentText
  | .exponent => fun rest ↦ One isSign (One isDigit DigitsText) rest ∨ One isDigit DigitsText rest
  | .sign => One isDigit DigitsText
  | .any2 => DigitsText

/-- A byte that can continue a number. -/
def continues (byte : UInt8) : Bool :=
  isDigit byte || isPoint byte || isExponent byte

/-- No number goes on with these bytes. -/
def EndsNumber (bytes : Bytes) : Prop :=
  ∀ byte, bytes.head? = some byte → continues byte = false

/-! ### Types and values -/

/-- What makes a number a double. -/
def isFloating (byte : UInt8) : Bool :=
  isPoint byte || isExponent byte

/-- The type of a number with a type so far, behind more of its text. -/
def typeBehind (type : NumberType) (text : Bytes) : NumberType :=
  if text.any isFloating then .float else type

/-- The type of the text of a number. -/
def textType (text : Bytes) : NumberType :=
  typeBehind (if text.head? = some 0x2D then .integer else .unsigned) text

/-- The value of the text of a number. -/
def numberOf (strtod : Bytes → Double) (text : Bytes) : Number :=
  convertNumber strtod (textType text) text

/-! ### The labels -/

section Labels

variable {state next : NumberState} {type result : NumberType} {byte : UInt8}
  {bytes text rest : Bytes}

/-- A number can end at a label exactly when the default of the label is to be done. -/
theorem accepts_nil_iff : state.Accepts [] ↔ state.isDone = true := by
  cases state with
  | _ => simp [NumberState.Accepts, NumberState.isDone, UnsignedText, FractionText, ExponentText,
      DigitsText]

/-- The classes of bytes of a number have no byte in common. -/
theorem class_cases (byte : UInt8) :
    isDigit byte = true ∧ isPoint byte = false ∧ isExponent byte = false ∧ isSign byte = false ∨
      isDigit byte = false ∧ isPoint byte = true ∧ isExponent byte = false ∧ isSign byte = false ∨
      isDigit byte = false ∧ isPoint byte = false ∧ isExponent byte = true ∧ isSign byte = false ∨
      isDigit byte = false ∧ isPoint byte = false ∧ isExponent byte = false := by
  simp only [isDigit, isPoint, isExponent, isSign, decide_eq_true_eq, decide_eq_false_iff_not]
  omega

/-- One more byte of a number, as the labels say. -/
theorem accepts_cons_iff :
    state.Accepts (byte :: bytes) ↔ ∃ next, state.next byte = some next ∧ next.Accepts bytes := by
  have hpoint : byte.toNat = 0x2E ↔ isPoint byte = true := by simp [isPoint]
  have hclasses := class_cases byte
  cases state with
  | minus =>
    have hdigit : byte.toNat ≠ 0x30 →
        ((0x31 ≤ byte.toNat ∧ byte.toNat ≤ 0x39) ↔ isDigit byte = true) := by
      intro hzero
      simp only [isDigit, decide_eq_true_eq]
      omega
    simp only [NumberState.Accepts, NumberState.next, UnsignedText, one_cons_iff, leadDigit,
      decide_eq_true_eq]
    by_cases hzero : byte.toNat = 0x30
    · simp [hzero]
    · by_cases hlead : isDigit byte = true <;> simp [hzero, hdigit hzero, hlead]
  | zero =>
    rcases hclasses with h | h | h | h <;>
      simp [NumberState.Accepts, NumberState.next, FractionText, ExponentText, hpoint, h]
  | any1 =>
    rcases hclasses with h | h | h | h <;>
      simp [NumberState.Accepts, NumberState.next, FractionText, ExponentText, many_cons_iff,
        hpoint, h]
  | decimal1 =>
    rcases hclasses with h | h | h | h <;> simp [NumberState.Accepts, NumberState.next, h]
  | decimal2 =>
    rcases hclasses with h | h | h | h <;>
      simp [NumberState.Accepts, NumberState.next, ExponentText, many_cons_iff, h]
  | exponent =>
    rcases hclasses with h | h | h | h <;> simp [NumberState.Accepts, NumberState.next, h]
  | sign =>
    rcases hclasses with h | h | h | h <;> simp [NumberState.Accepts, NumberState.next, h]
  | any2 =>
    rcases hclasses with h | h | h | h <;>
      simp [NumberState.Accepts, NumberState.next, DigitsText, many_cons_iff, h]

/-- At a label with a default that is to be done, a byte that continues no number is the default. -/
theorem next_eq_none (hdone : state.isDone = true) (hends : continues byte = false) :
    state.next byte = none := by
  have hpoint : byte.toNat = 0x2E ↔ isPoint byte = true := by simp [isPoint]
  simp only [continues, Bool.or_eq_false_iff] at hends
  obtain ⟨⟨hdigit, hnopoint⟩, hexponent⟩ := hends
  cases state with
  | zero | any1 | decimal2 | any2 => simp [NumberState.next, hdigit, hpoint, hnopoint, hexponent]
  | minus | decimal1 | exponent | sign => cases hdone

/-- A digit makes no number a double, and neither does a label behind one. -/
theorem type_of_leadDigit (hlead : leadDigit byte = some state) :
    state.type type = type ∧ isFloating byte = false := by
  simp only [leadDigit, isDigit, decide_eq_true_eq] at hlead
  have hplain : 0x30 ≤ byte.toNat ∧ byte.toNat ≤ 0x39 → isFloating byte = false := by
    intro hdigit
    simp only [isFloating, isPoint, isExponent, Bool.or_eq_false_iff, decide_eq_false_iff_not]
    omega
  split_ifs at hlead with hzero hdigit
  · obtain rfl := Option.some.inj hlead
    exact ⟨rfl, hplain (by omega)⟩
  · obtain rfl := Option.some.inj hlead
    exact ⟨rfl, hplain hdigit⟩

/-- A point and the letter of an exponent make a number a double, and no other byte does. -/
theorem type_of_next (hnext : state.next byte = some next) :
    next.type type = if isFloating byte then .float else type := by
  have hpoint : byte.toNat = 0x2E ↔ isPoint byte = true := by simp [isPoint]
  cases state with
  | minus =>
    obtain ⟨htype, hplain⟩ := @type_of_leadDigit next type byte hnext
    rw [htype, hplain]
    rfl
  | exponent =>
    rw [NumberState.next] at hnext
    rcases class_cases byte with h | h | h | h <;> split_ifs at hnext <;> cases hnext <;>
      simp_all [NumberState.type, isFloating]
  | _ =>
    rcases class_cases byte with h | h | h | h <;>
      simp [NumberState.next, hpoint, h] at hnext <;>
      subst hnext <;> simp [NumberState.type, isFloating, h]

/-- The labels give a number the type of what has been read up to them. -/
theorem typeBehind_cons (hnext : state.next byte = some next) :
    typeBehind type (byte :: text) = typeBehind (next.type type) text := by
  rw [type_of_next hnext, typeBehind, typeBehind, List.any_cons]
  cases isFloating byte <;> simp

/-- A label takes a text of a number. -/
theorem accepts_of_scanNumberFrom
    (hscan : scanNumberFrom type state bytes = some (result, text, rest)) :
    bytes = text ++ rest ∧ state.Accepts text ∧ result = typeBehind type text := by
  induction bytes generalizing type state text with
  | nil =>
    rw [scanNumberFrom] at hscan
    split_ifs at hscan with hdone
    simp only [Option.some.injEq, Prod.mk.injEq] at hscan
    obtain ⟨rfl, rfl, rfl⟩ := hscan
    exact ⟨rfl, accepts_nil_iff.mpr hdone, rfl⟩
  | cons byte bytes ih =>
    rw [scanNumberFrom] at hscan
    cases hnext : state.next byte with
    | some next =>
      simp only [hnext, Option.map_eq_some_iff] at hscan
      obtain ⟨⟨final, later, remaining⟩, hlater, hread⟩ := hscan
      simp only [Prod.mk.injEq] at hread
      obtain ⟨rfl, rfl, rfl⟩ := hread
      obtain ⟨rfl, haccepts, rfl⟩ := ih hlater
      exact ⟨rfl, accepts_cons_iff.mpr ⟨next, hnext, haccepts⟩, (typeBehind_cons hnext).symm⟩
    | none =>
      simp only [hnext] at hscan
      split_ifs at hscan with hdone
      simp only [Option.some.injEq, Prod.mk.injEq] at hscan
      obtain ⟨rfl, rfl, rfl⟩ := hscan
      exact ⟨rfl, accepts_nil_iff.mpr hdone, rfl⟩

/-- A label takes the whole text of a number, if nothing continues it. -/
theorem scanNumberFrom_of_accepts (haccepts : state.Accepts text) (hends : EndsNumber rest) :
    scanNumberFrom type state (text ++ rest) = some (typeBehind type text, text, rest) := by
  induction text generalizing type state with
  | nil =>
    have hdone := accepts_nil_iff.mp haccepts
    cases rest with
    | nil =>
      rw [List.nil_append, scanNumberFrom, if_pos hdone]
      rfl
    | cons byte rest =>
      have hnext := next_eq_none hdone (hends byte rfl)
      simp only [List.nil_append, scanNumberFrom, hnext, if_pos hdone]
      rfl
  | cons byte text ih =>
    obtain ⟨next, hnext, hlater⟩ := accepts_cons_iff.mp haccepts
    simp only [List.cons_append, scanNumberFrom, hnext, ih hlater, Option.map_some,
      typeBehind_cons hnext]

/-- A text of a number is what is left of it behind the label of its first byte. -/
theorem numberText_cons_iff :
    NumberText (byte :: bytes) ↔ ∃ state, leadByte byte = some state ∧ state.Accepts bytes := by
  have hunsigned : UnsignedText (byte :: bytes) ↔
      ∃ state, leadDigit byte = some state ∧ state.Accepts bytes :=
    @accepts_cons_iff .minus byte bytes
  by_cases hminus : byte.toNat = 0x2D
  · have hdigit : leadDigit byte = none := by simp [leadDigit, isDigit, hminus]
    simp [NumberText, leadByte, hunsigned, hminus, hdigit, NumberState.Accepts]
  · simp [NumberText, leadByte, hunsigned, hminus]

/-- The first label gives the number the type of its first byte. -/
theorem textType_cons (hlead : leadByte byte = some state) :
    textType (byte :: text) = typeBehind (state.type .unsigned) text := by
  have hsame : byte = 0x2D ↔ byte.toNat = 0x2D := UInt8.toNat_inj.symm
  have hplain : isFloating byte = false := by
    rw [leadByte] at hlead
    split_ifs at hlead with hminus
    · simp [isFloating, isPoint, isExponent, hminus]
    · exact (@type_of_leadDigit state .unsigned byte hlead).2
  have hfirst : (if byte = 0x2D then NumberType.integer else .unsigned) =
      state.type .unsigned := by
    rw [leadByte, leadDigit] at hlead
    split_ifs at hlead with hminus hzero hdigit <;> cases hlead
    · exact if_pos (hsame.mpr hminus)
    · exact if_neg fun heq ↦ hminus (hsame.mp heq)
    · exact if_neg fun heq ↦ hminus (hsame.mp heq)
  rw [textType, List.head?_cons]
  simp only [Option.some.injEq, hfirst, typeBehind, List.any_cons, hplain, Bool.false_or]

/-- `scan_number` takes a text of a number, and knows its type. -/
theorem numberText_of_scanNumber (hscan : scanNumber byte bytes = some (type, text, rest)) :
    byte :: bytes = text ++ rest ∧ NumberText text ∧ type = textType text := by
  simp only [scanNumber, Option.bind_eq_bind, Option.bind_eq_some_iff, Option.pure_def] at hscan
  obtain ⟨state, hstate, ⟨final, later, remaining⟩, hlater, hread⟩ := hscan
  simp only [Option.some.injEq, Prod.mk.injEq] at hread
  obtain ⟨rfl, rfl, rfl⟩ := hread
  obtain ⟨rfl, haccepts, rfl⟩ := accepts_of_scanNumberFrom hlater
  exact ⟨rfl, numberText_cons_iff.mpr ⟨state, hstate, haccepts⟩, (textType_cons hstate).symm⟩

/-- `scan_number` takes the whole text of a number, if nothing continues it. -/
theorem scanNumber_of_numberText (hnumber : NumberText (byte :: text)) (hends : EndsNumber rest) :
    scanNumber byte (text ++ rest) = some (textType (byte :: text), byte :: text, rest) := by
  obtain ⟨state, hstate, haccepts⟩ := numberText_cons_iff.mp hnumber
  simp [scanNumber, hstate, scanNumberFrom_of_accepts haccepts hends, textType_cons hstate]

/-- A number begins with its sign or a digit. -/
theorem lead_of_numberText (hnumber : NumberText (byte :: text)) :
    byte.toNat = 0x2D ∨ isDigit byte = true := by
  obtain ⟨state, hstate, -⟩ := numberText_cons_iff.mp hnumber
  by_cases hminus : byte.toNat = 0x2D
  · exact .inl hminus
  · rw [leadByte, if_neg hminus, leadDigit] at hstate
    split_ifs at hstate with hzero hdigit
    · exact .inr (by simp [isDigit, hzero])
    · exact .inr hdigit

end Labels

end KoboldKhat.Parser
