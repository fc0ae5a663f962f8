import KoboldKhat.Parser.RoundTrip

/-!
# JSON texts delimit themselves

The text of a value other than a number says by itself where it ends: no other such text begins it
(`Derives.eq_of_prefix`). So the parser rejects every proper part of it that begins where it begins
(`parse_part`), and when more is behind it, accepts it only if the lexer sees the end of the input
there (`parse_append`). `selfDelimiting` is both together.

`document` is what a client writes for a message: the envelope, serialized.
-/

set_option autoImplicit false
set_option relaxedAutoImplicit false

namespace KoboldKhat.Parser

open Library Serializer

variable {strtod : Bytes → Double}

section Delimiting

variable {text part bytes : Bytes} {value other : Json}

/-- A value other than a number ends with its text. -/
theorem ends_of_ne (hvalue : ∀ number, value ≠ .number number) (rest : Bytes) : Ends value rest :=
  fun number hnumber ↦ absurd hnumber (hvalue number)

/-- No text of a value begins the text of a value other than a number. -/
theorem Derives.eq_of_prefix (hderives : Derives strtod text (.value value))
    (hvalue : ∀ number, value ≠ .number number) (hpart : Derives strtod part (.value other))
    (hbegins : part <+: text) : part = text ∧ other = value := by
  obtain ⟨more, rfl⟩ := hbegins
  have hother : ∀ number, other ≠ .number number := by
    obtain ⟨first, later, rfl, -, -, hfirst⟩ := hpart.exists_head
    obtain ⟨head, rest, hhead, -, -, hnumber⟩ := hderives.exists_head
    obtain ⟨rfl, -⟩ := List.cons.inj hhead
    intro number hother
    obtain ⟨same, hsame⟩ := hnumber.mpr (hfirst.mp ⟨number, hother⟩)
    exact hvalue same hsame
  have hwhole := saxParse_of_derives blanks_nil hderives (ends_of_ne hvalue [])
  have hshort := saxParse_of_derives blanks_nil hpart (ends_of_ne hother more)
  rw [List.append_nil, List.nil_append] at hwhole
  rw [List.nil_append, hwhole] at hshort
  obtain ⟨rfl, rfl⟩ := Prod.mk.inj (Option.some.inj hshort)
  exact ⟨(List.append_nil part).symm, rfl⟩

/-- The parser rejects every proper part that begins the text of a value other than a number. -/
theorem parse_part (hderives : Derives strtod text (.value value))
    (hvalue : ∀ number, value ≠ .number number) (hbegins : part <+: text)
    (hproper : part ≠ text) : parse strtod part = none := by
  by_contra hsome
  obtain ⟨other, hother⟩ := Option.ne_none_iff_exists'.mp hsome
  obtain ⟨mark, before, inner, after, tail, rfl, hmark, hbefore, hinner, -, -⟩ :=
    isText_of_parse hother
  obtain ⟨first, later, rfl, hascii, hblank, -⟩ := hderives.exists_head
  obtain rfl : mark = [] := by
    rcases hmark with rfl | rfl
    · rfl
    · obtain ⟨more, hmore⟩ := hbegins
      obtain ⟨rfl, -⟩ := List.cons.inj hmore
      exact absurd hascii (by decide)
  obtain rfl : before = [] := by
    cases before with
    | nil => rfl
    | cons head rest =>
      obtain ⟨more, hmore⟩ := hbegins
      obtain ⟨rfl, -⟩ := List.cons.inj hmore
      rw [hbefore head List.mem_cons_self] at hblank
      cases hblank
  rw [List.nil_append, List.nil_append] at hbegins hproper
  have hsame := hderives.eq_of_prefix hvalue hinner
    ((List.prefix_append inner (after ++ tail)).trans hbegins)
  rw [hsame.1] at hbegins hproper
  exact hproper (hbegins.eq_of_length_le (by simp))

/-- With more behind it, the text of a value other than a number is accepted exactly when the lexer
sees the end of the input there. -/
theorem parse_append (hderives : Derives strtod text (.value value))
    (hvalue : ∀ number, value ≠ .number number) (extra : Bytes) :
    parse strtod (text ++ extra) =
      if (scan extra).1 = .endOfInput then some value else none := by
  have hskip : skipBom ([] ++ text ++ extra) = some ([] ++ text ++ extra) :=
    skipBom_of_derives blanks_nil hderives
  have hparsed := saxParse_of_derives blanks_nil hderives (ends_of_ne hvalue extra)
  rw [List.nil_append] at hskip hparsed
  rw [parse, hskip, Option.bind_eq_bind, Option.bind_some, hparsed]
  rfl

/-- The text of a value other than a number delimits itself: the parser rejects every proper part
that begins it, and with more behind it reads no other value from it, the numbers inside included,
and this one exactly when only blanks are there before the end or a byte zero. -/
theorem selfDelimiting (hderives : Derives strtod text (.value value))
    (hvalue : ∀ number, value ≠ .number number) :
    (∀ part, part <+: text → part ≠ text → parse strtod part = none) ∧
      ∀ extra other, parse strtod (text ++ extra) = some other ↔
        other = value ∧ ∃ blanks tail, extra = blanks ++ tail ∧ Blanks blanks ∧ EndsInput tail := by
  refine ⟨fun part hbegins hproper ↦ parse_part hderives hvalue hbegins hproper, ?_⟩
  intro extra other
  rw [parse_append hderives hvalue, ← scan_eq_endOfInput_iff]
  by_cases hend : (scan extra).1 = .endOfInput
  · rw [if_pos hend, Option.some.injEq, and_iff_left hend, eq_comm]
  · rw [if_neg hend]
    exact iff_of_false (fun hnone ↦ by cases hnone) fun hother ↦ hend hother.2

/-- The text of a string that is written as it is. -/
theorem stringText_of_plain {string : Bytes} (hplain : ∀ byte ∈ string, IsPlain byte) :
    StringText string string := by
  have hstring := stringText_flatMap (isUtf8_of_plain hplain)
  rw [flatMap_escapeByte_of_plain hplain] at hstring
  exact hstring

/-- Whether a string is plain can be computed. -/
theorem isPlain_of_all {string : Bytes}
    (hall : string.all (fun byte ↦ (0x20 ≤ byte.toNat && byte.toNat ≤ 0x7F) &&
      (byte.toNat != 0x22 && byte.toNat != 0x5C)) = true) :
    ∀ byte ∈ string, IsPlain byte := by
  intro byte hbyte
  have hthis := List.all_eq_true.mp hall byte hbyte
  simpa [IsPlain] using hthis

/-- A string of one letter is not read before its second quote, and only blanks can follow it. -/
theorem selfDelimiting_quoted :
    (∀ part, part <+: quoted (ascii "k") → part ≠ quoted (ascii "k") →
        parse (fun _ ↦ 0) part = none) ∧
      ∀ extra other, parse (fun _ ↦ 0) (quoted (ascii "k") ++ extra) = some other ↔
        other = .text (ascii "k") ∧
          ∃ blanks tail, extra = blanks ++ tail ∧ Blanks blanks ∧ EndsInput tail :=
  selfDelimiting (.text (stringText_of_plain (isPlain_of_all (by decide)))) (by simp)

end Delimiting

/-! ### The documents of a client -/

/-- What a client writes for a message: both strings of the envelope, escaped byte by byte. -/
def document (username message : Bytes) : Bytes :=
  ascii "\x7b\"message\":\"" ++ message.flatMap escapeByte ++ ascii "\",\"username\":\"" ++
    username.flatMap escapeByte ++ ascii "\"\x7d"

section Document

variable {username message : Bytes}

/-- The serializer writes the document of valid strings. -/
theorem dump_envelope_eq (husername : IsUtf8 username) (hmessage : IsUtf8 message)
    (toChars : Double → Bytes) :
    dump toChars (envelope username message) = some (document username message) :=
  dump_envelope husername hmessage toChars

/-- The keys of the envelope are in order. -/
theorem sorted_envelope (username message : Bytes) :
    Sorted [(ascii "message", .text message), (ascii "username", .text username)] := by
  have hless : ascii "message" < ascii "username" := by decide
  refine List.pairwise_cons.mpr ⟨fun member hmember ↦ ?_, List.pairwise_singleton _ _⟩
  rw [List.mem_singleton.mp hmember]
  exact hless

/-- A member with a string, as it is written. -/
theorem derives_textMember {key string : Bytes} (hkey : ∀ byte ∈ key, IsPlain byte)
    (hstring : IsUtf8 string) :
    Derives strtod (quoted key ++ ascii ":" ++ quoted (string.flatMap escapeByte))
      (.member key (.text string)) := by
  have htext : Derives strtod (quoted (string.flatMap escapeByte)) (.value (.text string)) :=
    .text (stringText_flatMap hstring)
  have hmember := Derives.member blanks_nil (stringText_of_plain hkey) blanks_nil
    (derives_element htext)
  rw [List.nil_append, List.append_nil] at hmember
  exact hmember

/-- The document stands for the envelope. -/
theorem derives_document (husername : IsUtf8 username) (hmessage : IsUtf8 message) :
    Derives strtod (document username message) (.value (envelope username message)) := by
  have hkeys : (∀ byte ∈ ascii "message", IsPlain byte) ∧
      ∀ byte ∈ ascii "username", IsPlain byte :=
    ⟨isPlain_of_all (by decide), isPlain_of_all (by decide)⟩
  have hmembers : Derives strtod
      (quoted (ascii "message") ++ ascii ":" ++ quoted (message.flatMap escapeByte) ++ ascii "," ++
        (quoted (ascii "username") ++ ascii ":" ++ quoted (username.flatMap escapeByte)))
      (.members [(ascii "message", .text message), (ascii "username", .text username)]) :=
    .moreMembers (derives_textMember hkeys.1 hmessage)
      (.lastMember (derives_textMember hkeys.2 husername))
  have hobject := Derives.object hmembers
  rw [collect_of_sorted (sorted_envelope username message)] at hobject
  have hdocument : document username message = ascii "\x7b" ++ (quoted (ascii "message") ++
      ascii ":" ++ quoted (message.flatMap escapeByte) ++ ascii "," ++ (quoted (ascii "username") ++
      ascii ":" ++ quoted (username.flatMap escapeByte))) ++ ascii "\x7d" := by
    simp [document, quoted, ascii]
  rw [hdocument]
  exact hobject

/-- A document begins with a brace. -/
theorem document_head (username message : Bytes) :
    (document username message).head? = some 123 := rfl

/-- The parser reads the envelope from the document. -/
theorem parse_document (husername : IsUtf8 username) (hmessage : IsUtf8 message) :
    parse strtod (document username message) = some (envelope username message) :=
  parse_of_isText (isText_of_derives (derives_document husername hmessage))

/-- The parser rejects every proper part that begins a document. -/
theorem parse_part_document (husername : IsUtf8 username) (hmessage : IsUtf8 message)
    {part : Bytes} (hbegins : part <+: document username message)
    (hproper : part ≠ document username message) : parse strtod part = none :=
  parse_part (derives_document husername hmessage) (by simp [envelope]) hbegins hproper

/-- The parser rejects a document with something behind it that begins like one. -/
theorem parse_document_append (husername : IsUtf8 username) (hmessage : IsUtf8 message)
    {extra : Bytes} (hhead : extra.head? = some 123) :
    parse strtod (document username message ++ extra) = none := by
  obtain ⟨later, rfl⟩ : ∃ later, extra = 123 :: later := by
    cases extra with
    | nil => cases hhead
    | cons first later => exact ⟨later, by rw [Option.some.inj hhead]⟩
  have hopens : scan (ascii "\x7b" ++ later) = (.beginObject, later) :=
    scan_spelled .beginObject rfl later
  have hopens : scan (123 :: later) = (.beginObject, later) := hopens
  rw [parse_append (derives_document husername hmessage) (by simp [envelope]), hopens]
  rfl

end Document

end KoboldKhat.Parser
