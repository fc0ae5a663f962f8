import KoboldKhat.Parser.Numbers
import KoboldKhat.Parser.Strings
import Mathlib.Data.List.TakeWhile

/-!
# The tokens the lexer reads

`Lexeme` is the text of a token. What `scan` takes for a token is a text of it behind blanks
(`exists_lexeme_of_scan`), and it takes such a text, with anything behind it (`scan_lexeme`); only a
number must not be continued by what is behind it (`Separated`). The input ends behind blanks at its
real end, or at a byte zero (`scan_eq_endOfInput_iff`).
-/

set_option autoImplicit false
set_option relaxedAutoImplicit false

namespace KoboldKhat.Parser

/-! ### Tokens -/

/-- A text in quotes. -/
def quoted (text : Bytes) : Bytes :=
  ascii "\"" ++ text ++ ascii "\""

/-- The text of a token. -/
inductive Lexeme : Token → Bytes → Prop
  | structural {token : Token} {byte : UInt8} (known : structuralToken byte = some token) :
      Lexeme token [byte]
  | literalTrue : Lexeme .literalTrue (ascii "true")
  | literalFalse : Lexeme .literalFalse (ascii "false")
  | literalNull : Lexeme .literalNull (ascii "null")
  | string {text string : Bytes} (inside : StringText text string) :
      Lexeme (.valueString string) (quoted text)
  | number {text : Bytes} (shape : NumberText text) :
      Lexeme (.valueNumber (textType text) text) text

/-- The only text of a token that has no other one. -/
def spelling : Token → Option Bytes
  | .literalTrue => some (ascii "true")
  | .literalFalse => some (ascii "false")
  | .literalNull => some (ascii "null")
  | .beginArray => some (ascii "[")
  | .beginObject => some (ascii "\x7b")
  | .endArray => some (ascii "]")
  | .endObject => some (ascii "\x7d")
  | .nameSeparator => some (ascii ":")
  | .valueSeparator => some (ascii ",")
  | _ => none

/-- Blanks and nothing else. -/
def Blanks (bytes : Bytes) : Prop :=
  ∀ byte ∈ bytes, isBlank byte = true

/-- Nothing, or what begins with a byte zero. -/
def EndsInput (bytes : Bytes) : Prop :=
  ∀ byte, bytes.head? = some byte → byte = 0

/-- A token is read to its end. -/
def Separated (token : Token) (rest : Bytes) : Prop :=
  ∀ type text, token = .valueNumber type text → EndsNumber rest

section Tokens

variable {token : Token} {current : UInt8} {text bytes blanks rest : Bytes}

/-- The bytes of the tokens of one byte. -/
theorem structuralToken_eq_some (hknown : structuralToken current = some token) :
    isBlank current = false ∧ token ≠ .parseError ∧ token ≠ .endOfInput := by
  have hblank : ∀ byte : UInt8, byte.toNat = current.toNat → isBlank byte = false →
      isBlank current = false := by
    intro byte hsame hbyte
    rw [← UInt8.toNat_inj.mp hsame]
    exact hbyte
  unfold structuralToken at hknown
  split at hknown
  case h_7 => cases hknown
  all_goals
    rename_i hcurrent
    obtain rfl := Option.some.inj hknown
    refine ⟨hblank (current.toNat.toUInt8) ?_ ?_, by decide, by decide⟩
    · rw [hcurrent]; rfl
    · rw [hcurrent]; decide

/-- A token with one text has this text. -/
theorem Lexeme.eq_spelling (hlexeme : Lexeme token text) {only : Bytes}
    (honly : spelling token = some only) : text = only := by
  cases hlexeme with
  | @structural token byte known =>
    have hbyte : ∀ number : ℕ, byte.toNat = number → byte = number.toUInt8 := by
      rintro number rfl
      exact UInt8.toNat_inj.mp (by simp)
    unfold structuralToken at known
    split at known
    case h_7 => cases known
    all_goals
      rename_i hnumber
      cases known
      obtain rfl := Option.some.inj honly
      rw [hbyte _ hnumber]
      rfl
  | literalTrue => exact Option.some.inj honly
  | literalFalse => exact Option.some.inj honly
  | literalNull => exact Option.some.inj honly
  | string inside => cases honly
  | number shape => cases honly

/-- The text of a string token is in quotes. -/
theorem Lexeme.exists_quoted {string : Bytes} (hlexeme : Lexeme (.valueString string) text) :
    ∃ inner, text = quoted inner ∧ StringText inner string := by
  cases hlexeme with
  | structural known =>
    unfold structuralToken at known
    split at known <;> cases known
  | string inside => exact ⟨_, rfl, inside⟩

/-- The text of a number token is the number, of the type of the token. -/
theorem Lexeme.numberText {type : NumberType} {number : Bytes}
    (hlexeme : Lexeme (.valueNumber type number) text) :
    text = number ∧ NumberText number ∧ type = textType number := by
  cases hlexeme with
  | structural known =>
    unfold structuralToken at known
    split at known <;> cases known
  | number shape => exact ⟨rfl, shape, rfl⟩

/-- The one text of a token is a text of it. -/
theorem lexeme_spelling (honly : spelling token = some text) : Lexeme token text := by
  cases token with
  | valueString | valueNumber | parseError | endOfInput => cases honly
  | literalTrue => exact Option.some.inj honly ▸ .literalTrue
  | literalFalse => exact Option.some.inj honly ▸ .literalFalse
  | literalNull => exact Option.some.inj honly ▸ .literalNull
  | beginArray => exact Option.some.inj honly ▸ @Lexeme.structural _ 0x5B rfl
  | beginObject => exact Option.some.inj honly ▸ @Lexeme.structural _ 0x7B rfl
  | endArray => exact Option.some.inj honly ▸ @Lexeme.structural _ 0x5D rfl
  | endObject => exact Option.some.inj honly ▸ @Lexeme.structural _ 0x7D rfl
  | nameSeparator => exact Option.some.inj honly ▸ @Lexeme.structural _ 0x3A rfl
  | valueSeparator => exact Option.some.inj honly ▸ @Lexeme.structural _ 0x2C rfl

/-- A literal that is taken. -/
theorem scanLiteral_eq_some {literal : Bytes} {expected : Token}
    (hscan : scanLiteral literal expected bytes = some (token, rest)) :
    bytes = literal ++ rest ∧ token = expected := by
  rw [scanLiteral] at hscan
  split_ifs at hscan with hbegins
  obtain ⟨rest', rfl⟩ := List.isPrefixOf_iff_prefix.mp hbegins
  obtain ⟨rfl, hrest⟩ := Prod.mk.inj (Option.some.inj hscan)
  rw [List.drop_left] at hrest
  exact ⟨by rw [hrest], rfl⟩

/-- A literal that is there is taken. -/
theorem scanLiteral_append (literal rest : Bytes) (expected : Token) :
    scanLiteral literal expected (literal ++ rest) = some (expected, rest) := by
  rw [scanLiteral, if_pos (List.isPrefixOf_iff_prefix.mpr (List.prefix_append literal rest)),
    List.drop_left]

/-- What is taken for a token is a text of it, unless it is a byte zero. -/
theorem exists_lexeme_of_scanToken (hscan : scanToken current bytes = some (token, rest)) :
    (token = .endOfInput ∧ current = 0 ∧ rest = bytes) ∨
      token ≠ .parseError ∧ token ≠ .endOfInput ∧
        ∃ text, current :: bytes = text ++ rest ∧ Lexeme token text := by
  have hbyte : ∀ byte : UInt8, current.toNat = byte.toNat → current = byte :=
    fun byte ↦ UInt8.toNat_inj.mp
  rw [scanToken] at hscan
  cases hstructural : structuralToken current with
  | some known =>
    simp only [hstructural, Option.some.injEq, Prod.mk.injEq] at hscan
    obtain ⟨rfl, rfl⟩ := hscan
    obtain ⟨-, herror, hend⟩ := structuralToken_eq_some hstructural
    exact .inr ⟨herror, hend, [current], rfl, .structural hstructural⟩
  | none =>
    simp only [hstructural] at hscan
    split_ifs at hscan with htrue hfalse hnull hquote hnumber hzero
    · obtain ⟨rfl, rfl⟩ := scanLiteral_eq_some hscan
      exact .inr ⟨by decide, by decide, ascii "true", by rw [hbyte 0x74 htrue]; rfl, .literalTrue⟩
    · obtain ⟨rfl, rfl⟩ := scanLiteral_eq_some hscan
      exact .inr ⟨by decide, by decide, ascii "false", by rw [hbyte 0x66 hfalse]; rfl,
        .literalFalse⟩
    · obtain ⟨rfl, rfl⟩ := scanLiteral_eq_some hscan
      exact .inr ⟨by decide, by decide, ascii "null", by rw [hbyte 0x6E hnull]; rfl, .literalNull⟩
    · rw [Option.map_eq_some_iff] at hscan
      obtain ⟨⟨string, remaining⟩, hstring, hread⟩ := hscan
      obtain ⟨rfl, rfl⟩ := Prod.mk.inj hread
      obtain ⟨text, rfl, hinside⟩ := scanString_eq_some_iff.mp hstring
      refine .inr ⟨by simp, by simp, quoted text, ?_, .string hinside⟩
      rw [hbyte 0x22 hquote]
      simp [quoted, ascii]
    · rw [Option.map_eq_some_iff] at hscan
      obtain ⟨⟨type, number, remaining⟩, hscanned, hread⟩ := hscan
      obtain ⟨rfl, rfl⟩ := Prod.mk.inj hread
      obtain ⟨hsplit, hshape, rfl⟩ := numberText_of_scanNumber hscanned
      exact .inr ⟨by simp, by simp, number, hsplit, .number hshape⟩
    · obtain ⟨rfl, rfl⟩ := Prod.mk.inj (Option.some.inj hscan)
      exact .inl ⟨rfl, hbyte 0 hzero, rfl⟩

/-- A text of a token begins with a byte that is not blank. -/
theorem Lexeme.cons (hlexeme : Lexeme token text) :
    ∃ first later, text = first :: later ∧ isBlank first = false := by
  cases hlexeme with
  | structural known => exact ⟨_, [], rfl, (structuralToken_eq_some known).1⟩
  | literalTrue => exact ⟨_, _, rfl, by decide⟩
  | literalFalse => exact ⟨_, _, rfl, by decide⟩
  | literalNull => exact ⟨_, _, rfl, by decide⟩
  | string inside => exact ⟨0x22, _, rfl, by decide⟩
  | number shape =>
    cases text with
    | nil => simp [NumberText, UnsignedText] at shape
    | cons first later =>
      refine ⟨first, later, rfl, ?_⟩
      have hlead := lead_of_numberText shape
      simp only [isDigit, decide_eq_true_eq] at hlead
      simp only [isBlank, Bool.or_eq_false_iff, beq_eq_false_iff_ne, ← UInt8.toNat_inj.ne]
      refine ⟨⟨⟨?_, ?_⟩, ?_⟩, ?_⟩ <;> intro hblank <;> simp only [hblank] at hlead <;>
        exact absurd hlead (by decide)

/-- A text of a token is taken, with anything behind it that does not continue a number. -/
theorem scanToken_of_lexeme (hlexeme : Lexeme token (current :: text))
    (hseparated : Separated token rest) :
    scanToken current (text ++ rest) = some (token, rest) := by
  generalize hwhole : current :: text = whole at hlexeme
  cases hlexeme with
  | structural known =>
    obtain ⟨rfl, rfl⟩ := List.cons.inj hwhole
    simp [scanToken, known]
  | literalTrue =>
    obtain ⟨rfl, rfl⟩ := List.cons.inj hwhole
    exact scanLiteral_append (ascii "rue") rest .literalTrue
  | literalFalse =>
    obtain ⟨rfl, rfl⟩ := List.cons.inj hwhole
    exact scanLiteral_append (ascii "alse") rest .literalFalse
  | literalNull =>
    obtain ⟨rfl, rfl⟩ := List.cons.inj hwhole
    exact scanLiteral_append (ascii "ull") rest .literalNull
  | @string inner string inside =>
    obtain ⟨rfl, rfl⟩ := List.cons.inj hwhole
    have hstring := scanString_eq_some_iff.mpr
      ⟨inner, @rfl _ (inner ++ ascii "\"" ++ rest), inside⟩
    show (scanString (inner ++ ascii "\"" ++ rest)).map _ = _
    rw [hstring]
    rfl
  | number shape =>
    subst hwhole
    have hlead := lead_of_numberText shape
    have hscan := scanNumber_of_numberText shape (hseparated _ _ rfl)
    have hnone : structuralToken current = none := by
      simp only [isDigit, decide_eq_true_eq] at hlead
      unfold structuralToken
      split <;> first | rfl | omega
    have hdigit := hlead
    simp only [isDigit, decide_eq_true_eq] at hdigit
    simp only [scanToken, hnone]
    rw [if_neg (by omega), if_neg (by omega), if_neg (by omega), if_neg (by omega), if_pos hlead,
      hscan]
    rfl

/-- Blanks in front of a token are skipped. -/
theorem scan_blanks (hblanks : Blanks blanks) (bytes : Bytes) :
    scan (blanks ++ bytes) = scan bytes := by
  rw [scan, scan, List.dropWhile_append_of_pos hblanks]

/-- The lexer takes a text of a token behind blanks. -/
theorem scan_lexeme (hblanks : Blanks blanks) (hlexeme : Lexeme token text)
    (hseparated : Separated token rest) : scan (blanks ++ text ++ rest) = (token, rest) := by
  obtain ⟨current, later, rfl, hcurrent⟩ := hlexeme.cons
  rw [List.append_assoc, scan_blanks hblanks, scan, List.cons_append,
    List.dropWhile_cons_of_neg (by simp [hcurrent])]
  simp only [scanToken_of_lexeme hlexeme hseparated, Option.getD_some]

/-- What the lexer takes for a token is a text of it behind blanks, unless it ends the input. -/
theorem exists_lexeme_of_scan (hscan : scan bytes = (token, rest)) (herror : token ≠ .parseError)
    (hend : token ≠ .endOfInput) :
    ∃ blanks text, bytes = blanks ++ text ++ rest ∧ Blanks blanks ∧ Lexeme token text := by
  have hsplit : bytes.takeWhile isBlank ++ bytes.dropWhile isBlank = bytes :=
    List.takeWhile_append_dropWhile
  have hblanks : Blanks (bytes.takeWhile isBlank) := fun byte ↦ List.mem_takeWhile_imp
  rw [scan] at hscan
  cases hdrop : bytes.dropWhile isBlank with
  | nil =>
    simp only [hdrop, Prod.mk.injEq] at hscan
    exact absurd hscan.1.symm hend
  | cons current later =>
    simp only [hdrop] at hscan
    cases htoken : scanToken current later with
    | none =>
      simp only [htoken, Option.getD_none, Prod.mk.injEq] at hscan
      exact absurd hscan.1.symm herror
    | some read =>
      simp only [htoken, Option.getD_some] at hscan
      rw [hscan] at htoken
      rcases exists_lexeme_of_scanToken htoken with ⟨rfl, -⟩ | ⟨-, -, text, htext, hlexeme⟩
      · exact absurd rfl hend
      · refine ⟨bytes.takeWhile isBlank, text, ?_, hblanks, hlexeme⟩
        rw [List.append_assoc, ← htext, ← hdrop, hsplit]

/-- A token with one text is taken where this text is. -/
theorem scan_spelling (hblanks : Blanks blanks) (honly : spelling token = some text)
    (rest : Bytes) : scan (blanks ++ text ++ rest) = (token, rest) := by
  refine scan_lexeme hblanks (lexeme_spelling honly) fun type number hnumber ↦ ?_
  rw [hnumber] at honly
  cases honly

/-- Where a token with one text is taken, there is this text. -/
theorem exists_blanks_of_scan (hscan : (scan bytes).1 = token)
    (honly : spelling token = some text) :
    ∃ blanks, bytes = blanks ++ text ++ (scan bytes).2 ∧ Blanks blanks := by
  have htoken : token ≠ .parseError ∧ token ≠ .endOfInput := by
    constructor <;> rintro rfl <;> cases honly
  obtain ⟨blanks, found, hbytes, hblanks, hlexeme⟩ :=
    exists_lexeme_of_scan (Prod.ext hscan rfl) htoken.1 htoken.2
  rw [hlexeme.eq_spelling honly] at hbytes
  exact ⟨blanks, hbytes, hblanks⟩

/-- The input ends behind blanks, with a byte zero or the real end. -/
theorem scan_eq_endOfInput_iff :
    (scan bytes).1 = .endOfInput ↔
      ∃ blanks tail, bytes = blanks ++ tail ∧ Blanks blanks ∧ EndsInput tail := by
  constructor
  · intro hscan
    refine ⟨bytes.takeWhile isBlank, bytes.dropWhile isBlank,
      List.takeWhile_append_dropWhile.symm, fun byte ↦ List.mem_takeWhile_imp, ?_⟩
    intro byte hbyte
    rw [scan] at hscan
    cases hdrop : bytes.dropWhile isBlank with
    | nil => simp [hdrop] at hbyte
    | cons current later =>
      simp only [hdrop, List.head?_cons, Option.some.injEq] at hbyte
      subst hbyte
      simp only [hdrop] at hscan
      cases htoken : scanToken current later with
      | none => simp [htoken] at hscan
      | some read =>
        simp only [htoken, Option.getD_some] at hscan
        rcases exists_lexeme_of_scanToken htoken with ⟨-, hzero, -⟩ | ⟨-, hend, -⟩
        · exact hzero
        · exact absurd hscan hend
  · rintro ⟨blanks, tail, rfl, hblanks, htail⟩
    rw [scan_blanks hblanks]
    cases tail with
    | nil => rfl
    | cons byte later =>
      obtain rfl := htail byte rfl
      rfl

/-- A token takes a byte, unless it is the end of the input. -/
theorem scan_length (hend : (scan bytes).1 ≠ .endOfInput) :
    (scan bytes).2.length < bytes.length := by
  have hdropped : (bytes.dropWhile isBlank).length ≤ bytes.length :=
    (List.dropWhile_suffix isBlank).length_le
  cases hdrop : bytes.dropWhile isBlank with
  | nil => exact absurd (by rw [scan]; simp [hdrop]) hend
  | cons current later =>
    rw [hdrop, List.length_cons] at hdropped
    have hscan : scan bytes = (scanToken current later).getD (.parseError, later) := by
      rw [scan]
      simp only [hdrop]
    cases htoken : scanToken current later with
    | none =>
      rw [hscan, htoken, Option.getD_none]
      exact hdropped
    | some read =>
      rw [hscan, htoken, Option.getD_some] at hend ⊢
      rcases exists_lexeme_of_scanToken htoken with ⟨hended, -⟩ | ⟨-, -, text, htext, hlexeme⟩
      · exact absurd hended hend
      · obtain ⟨first, others, rfl, -⟩ := hlexeme.cons
        have hlength := congrArg List.length htext
        simp only [List.length_append, List.length_cons] at hlength
        omega

/-- The lexer does not go back. -/
theorem scan_length_le (bytes : Bytes) : (scan bytes).2.length ≤ bytes.length := by
  by_cases hend : (scan bytes).1 = .endOfInput
  · have hdropped : (bytes.dropWhile isBlank).length ≤ bytes.length :=
      (List.dropWhile_suffix isBlank).length_le
    cases hdrop : bytes.dropWhile isBlank with
    | nil =>
      rw [scan]
      simp [hdrop]
    | cons current later =>
      rw [hdrop, List.length_cons] at hdropped
      rw [scan] at hend ⊢
      simp only [hdrop] at hend ⊢
      cases htoken : scanToken current later with
      | none => exact Nat.le_of_lt hdropped
      | some read =>
        rw [htoken, Option.getD_some] at hend
        rcases exists_lexeme_of_scanToken htoken with ⟨-, -, hrest⟩ | ⟨-, hother, -⟩
        · rw [Option.getD_some, hrest]
          exact Nat.le_of_lt hdropped
        · exact absurd hend hother
  · exact Nat.le_of_lt (scan_length hend)

end Tokens

end KoboldKhat.Parser
