import KoboldKhat.Parser.Grammar
import KoboldKhat.Parser.Integers

/-!
# Parsing what the serializer writes

What `dump` writes for a value is a text of the grammar (`derives_dump`). It stands for the value
in which every number has the kind that the lexer gives it (`reread`): an integer that is not
negative is an unsigned one, and a `double` that is not finite has been written as `null`. So the
parser reads this value back (`parse_of_dump`). It needs the keys of every object in order
(`Ordered`), which they are in a `std::map`, and the text of a finite `double` to be read back as
the `double`, which is what the library says of its texts (`ReadsBack`).

In the other direction, all that is parsed is in order, its strings are valid, and its numbers have
the kinds of the lexer, except for a zero that has been written with a minus sign
(`Derives.isClean`). So what is parsed can always be written again, and what is written for it
stands for the same value (`dump_of_parse`).
-/

set_option autoImplicit false
set_option relaxedAutoImplicit false

namespace KoboldKhat.Parser

open Library Serializer

/-! ### Objects in order -/

/-- The keys of members are in order. -/
def Sorted (members : List (Bytes × Json)) : Prop :=
  members.Pairwise fun first second ↦ first.1 < second.1

/-- The keys of all objects of a value are in order. -/
inductive Ordered : Json → Prop
  | null : Ordered .null
  | boolean (value : Bool) : Ordered (.boolean value)
  | number (value : Number) : Ordered (.number value)
  | text (value : Bytes) : Ordered (.text value)
  | array {elements : List Json} (each : ∀ element ∈ elements, Ordered element) :
      Ordered (.array elements)
  | object {members : List (Bytes × Json)} (sorted : Sorted members)
      (each : ∀ member ∈ members, Ordered member.2) : Ordered (.object members)

section Sorted

variable {key : Bytes} {value : Json} {members before : List (Bytes × Json)}

/-- What is in an object after an assignment. -/
theorem mem_insert {member : Bytes × Json} (hmember : member ∈ insert key value members) :
    member = (key, value) ∨ member ∈ members := by
  induction members with
  | nil => exact .inl (List.mem_singleton.mp hmember)
  | cons first members ih =>
    rw [insert] at hmember
    split_ifs at hmember with hless hsame
    · exact List.mem_cons.mp hmember
    · exact (List.mem_cons.mp hmember).imp_right (List.mem_cons_of_mem first)
    · rcases List.mem_cons.mp hmember with rfl | hlater
      · exact .inr List.mem_cons_self
      · exact (ih hlater).imp_right (List.mem_cons_of_mem first)

/-- An assignment keeps the order. -/
theorem sorted_insert (hsorted : Sorted members) : Sorted (insert key value members) := by
  induction members with
  | nil => exact List.pairwise_singleton _ _
  | cons first members ih =>
    obtain ⟨hfirst, hlater⟩ := List.pairwise_cons.mp hsorted
    rw [insert]
    split_ifs with hless hsame
    · refine List.pairwise_cons.mpr ⟨fun member hmember ↦ ?_, hsorted⟩
      rcases List.mem_cons.mp hmember with rfl | hmember
      · exact hless
      · exact List.lt_trans hless (hfirst member hmember)
    · rw [hsame]
      exact List.pairwise_cons.mpr ⟨hfirst, hlater⟩
    · have hgreater : first.1 < key :=
        Std.lt_of_le_of_ne (List.not_lt.mp hless) fun heq ↦ hsame heq.symm
      refine List.pairwise_cons.mpr ⟨fun member hmember ↦ ?_, ih hlater⟩
      rcases mem_insert hmember with rfl | hmember
      · exact hgreater
      · exact hfirst member hmember

/-- An assignment to a key behind all others adds it at the end. -/
theorem insert_of_greater (hgreater : ∀ member ∈ before, member.1 < key) :
    insert key value before = before ++ [(key, value)] := by
  induction before with
  | nil => rfl
  | cons first before ih =>
    obtain ⟨hfirst, hlater⟩ := List.forall_mem_cons.mp hgreater
    have hne : key ≠ first.1 := by
      rintro rfl
      exact List.lt_irrefl _ hfirst
    rw [insert, if_neg (List.lt_asymm hfirst), if_neg hne, ih hlater, List.cons_append]

/-- Members in order are kept as they are. -/
theorem foldl_insert_of_sorted (hsorted : Sorted (before ++ members)) :
    members.foldl (fun object member ↦ insert member.1 member.2 object) before =
      before ++ members := by
  induction members generalizing before with
  | nil => rw [List.foldl_nil, List.append_nil]
  | cons first members ih =>
    have hgreater : ∀ member ∈ before, member.1 < first.1 := fun member hmember ↦
      (List.pairwise_append.mp hsorted).2.2 member hmember first List.mem_cons_self
    rw [List.append_cons] at hsorted
    rw [List.foldl_cons, insert_of_greater hgreater, ih hsorted, ← List.append_cons]

/-- Members in order are the members of the object they make. -/
theorem collect_of_sorted (hsorted : Sorted members) : collect members = members :=
  @foldl_insert_of_sorted members [] hsorted

/-- The members of an object that is parsed are in order, and each of them has been read. -/
theorem sorted_collect (members : List (Bytes × Json)) :
    Sorted (collect members) ∧ ∀ member ∈ collect members, member ∈ members := by
  have hfold : ∀ later before : List (Bytes × Json), Sorted before →
      Sorted (later.foldl (fun object member ↦ insert member.1 member.2 object) before) ∧
        ∀ member ∈ later.foldl (fun object member ↦ insert member.1 member.2 object) before,
          member ∈ before ∨ member ∈ later := by
    intro later
    induction later with
    | nil => exact fun before hbefore ↦ ⟨hbefore, fun member hmember ↦ .inl hmember⟩
    | cons first later ih =>
      intro before hbefore
      obtain ⟨hsorted, hmembers⟩ := ih (insert first.1 first.2 before) (sorted_insert hbefore)
      refine ⟨hsorted, fun member hmember ↦ ?_⟩
      rcases hmembers member hmember with hinserted | hlater
      · rcases mem_insert hinserted with rfl | hold
        · exact .inr List.mem_cons_self
        · exact .inl hold
      · exact .inr (List.mem_cons_of_mem first hlater)
  obtain ⟨hsorted, hmembers⟩ := hfold members [] List.Pairwise.nil
  exact ⟨hsorted, fun member hmember ↦ (hmembers member hmember).resolve_left List.not_mem_nil⟩

end Sorted

/-! ### What is read back -/

/-- What is read from what is written for a number. -/
def rereadNumber : Number → Json
  | .unsigned value => .number (.unsigned value)
  | .integer value =>
    if value.toInt < 0 then .number (.integer value)
    else .number (.unsigned (.ofNat value.toInt.toNat))
  | .float value => if value.isFinite then .number (.float value) else .null

mutual

/-- What is read from what is written for a value. -/
def reread : Json → Json
  | .null => .null
  | .boolean value => .boolean value
  | .number value => rereadNumber value
  | .text value => .text value
  | .array elements => .array (rereadElements elements)
  | .object members => .object (rereadMembers members)

/-- The elements of an array that are read. -/
def rereadElements : List Json → List Json
  | [] => []
  | value :: elements => reread value :: rereadElements elements

/-- The members of an object that are read. -/
def rereadMembers : List (Bytes × Json) → List (Bytes × Json)
  | [] => []
  | (key, value) :: members => (key, reread value) :: rereadMembers members

end

mutual

/-- The numbers of a value. -/
def numbers : Json → List Number
  | .number value => [value]
  | .array elements => numbersOfElements elements
  | .object members => numbersOfMembers members
  | .null | .boolean _ | .text _ => []

/-- The numbers of the elements of an array. -/
def numbersOfElements : List Json → List Number
  | [] => []
  | value :: elements => numbers value ++ numbersOfElements elements

/-- The numbers of the members of an object. -/
def numbersOfMembers : List (Bytes × Json) → List Number
  | [] => []
  | (_, value) :: members => numbers value ++ numbersOfMembers members

end

/-- A number that is read back as it is. -/
def Kept : Number → Prop
  | .unsigned _ => True
  | .integer value => value.toInt < 0
  | .float value => value.isFinite = true

section Reread

variable {members : List (Bytes × Json)} {number : Number}

theorem rereadNumber_eq_iff (number : Number) :
    rereadNumber number = .number number ↔ Kept number := by
  cases number with
  | unsigned value => simp [rereadNumber, Kept]
  | integer value => simp [rereadNumber, Kept]
  | float value => simp [rereadNumber, Kept]

mutual

/-- A value is read back as it is exactly when its numbers are. -/
theorem reread_eq_iff (value : Json) :
    reread value = value ↔ ∀ number ∈ numbers value, Kept number := by
  cases value with
  | null => simp [reread, numbers]
  | boolean value => simp [reread, numbers]
  | number value => rw [reread, numbers, List.forall_mem_singleton, rereadNumber_eq_iff]
  | text value => simp [reread, numbers]
  | array elements => rw [reread, numbers, Json.array.injEq, rereadElements_eq_iff]
  | object members => rw [reread, numbers, Json.object.injEq, rereadMembers_eq_iff]

/-- The elements of an array are read back as they are exactly when their numbers are. -/
theorem rereadElements_eq_iff (elements : List Json) :
    rereadElements elements = elements ↔ ∀ number ∈ numbersOfElements elements, Kept number := by
  cases elements with
  | nil => simp [rereadElements, numbersOfElements]
  | cons value elements =>
    rw [rereadElements, numbersOfElements, List.cons.injEq, List.forall_mem_append,
      reread_eq_iff value, rereadElements_eq_iff elements]

/-- The members of an object are read back as they are exactly when their numbers are. -/
theorem rereadMembers_eq_iff (members : List (Bytes × Json)) :
    rereadMembers members = members ↔ ∀ number ∈ numbersOfMembers members, Kept number := by
  cases members with
  | nil => simp [rereadMembers, numbersOfMembers]
  | cons member members =>
    obtain ⟨key, value⟩ := member
    rw [rereadMembers, numbersOfMembers, List.cons.injEq, Prod.mk.injEq, List.forall_mem_append,
      reread_eq_iff value, rereadMembers_eq_iff members]
    simp

end

/-- The keys of an object are read back as they are. -/
theorem keys_rereadMembers (members : List (Bytes × Json)) :
    (rereadMembers members).map Prod.fst = members.map Prod.fst := by
  induction members with
  | nil => rfl
  | cons member members ih => rw [rereadMembers, List.map_cons, List.map_cons, ih]

/-- Members in order are read back in order. -/
theorem sorted_rereadMembers (hsorted : Sorted members) : Sorted (rereadMembers members) := by
  have hkeys : (members.map Prod.fst).Pairwise (· < ·) := List.pairwise_map.mpr hsorted
  rw [← keys_rereadMembers] at hkeys
  exact List.pairwise_map.mp hkeys

end Reread

/-! ### From the serializer to the grammar -/

/-- What the library says of the text of a `double`: it is that of a number with a fraction or an
exponent, and `strtod` makes the same `double` of it. -/
structure ReadsBack (strtod : Bytes → Double) (toChars : Double → Bytes) : Prop where
  shape : ∀ {value : Double}, value.isFinite = true → NumberText (toChars value)
  floats : ∀ {value : Double}, value.isFinite = true → textType (toChars value) = .float
  reads : ∀ {value : Double}, value.isFinite = true → strtod (toChars value) = value

section Dump

variable {strtod : Bytes → Double} {toChars : Double → Bytes}

/-- The four digits of a number are read as the number. -/
theorem fourDigits_hexFour {value : ℕ} (hvalue : value < 0x10000) :
    FourDigits (hexFour value) value := by
  have hdigit : ∀ digit < 16, hexValue (hexDigit digit) = some digit := by decide
  have hsum : value = value / 4096 % 16 * 0x1000 + value / 256 % 16 * 0x0100 +
      value / 16 % 16 * 0x0010 + value % 16 := by omega
  have hfour := FourDigits.intro (hdigit (value / 4096 % 16) (by omega))
    (hdigit (value / 256 % 16) (by omega)) (hdigit (value / 16 % 16) (by omega))
    (hdigit (value % 16) (by omega))
  rw [← hsum] at hfour
  exact hfour

/-- What is written for a byte of ASCII stands for it. -/
theorem characterText_escapeByte {byte : UInt8} (hascii : byte.toNat ≤ 0x7F) :
    CharacterText (escapeByte byte) [byte] := by
  have hsame : ∀ other : UInt8, byte.toNat = other.toNat → byte = other :=
    fun other ↦ UInt8.toNat_inj.mp
  have hsimple : ∀ letter escaped : UInt8, byte.toNat = escaped.toNat →
      simpleEscape letter = some escaped → CharacterText (ascii "\\" ++ [letter]) [byte] := by
    intro letter escaped heq hknown
    rw [hsame escaped heq]
    exact .escape (.simple hknown)
  unfold escapeByte escapeAccepted
  split
  case h_1 heq => exact hsimple 0x62 0x08 heq rfl
  case h_2 heq => exact hsimple 0x74 0x09 heq rfl
  case h_3 heq => exact hsimple 0x6E 0x0A heq rfl
  case h_4 heq => exact hsimple 0x66 0x0C heq rfl
  case h_5 heq => exact hsimple 0x72 0x0D heq rfl
  case h_6 heq => exact hsimple 0x22 0x22 heq rfl
  case h_7 heq => exact hsimple 0x5C 0x5C heq rfl
  case h_8 hquote hreverse =>
    split_ifs with hcontrol
    · exact .escape (.unicode (fourDigits_hexFour (by omega)) (.one hascii rfl))
    · exact .plain (.one hascii rfl) ⟨by omega, hquote, hreverse⟩

/-- What is written for a valid string stands for it. -/
theorem stringText_flatMap {string : Bytes} (hvalid : IsUtf8 string) :
    StringText (string.flatMap escapeByte) string := by
  refine @IsUtf8.induction (fun string ↦ StringText (string.flatMap escapeByte) string) .nil ?_
    string hvalid
  intro bytes number rest hencodes ih
  rw [List.flatMap_append]
  refine .cons ?_ ih
  rcases hencodes.ascii_or_large with ⟨byte, rfl, hnumber⟩ | ⟨hlarge, hbytes⟩
  · rw [List.flatMap_singleton]
    refine characterText_escapeByte ?_
    cases hencodes with
    | one small value => exact small
  · have hescaped : bytes.flatMap escapeByte = bytes :=
      flatMap_escapeByte_eq_self fun byte hbyte ↦ escapeAccepted_of_large (hbytes byte hbyte) byte
    rw [hescaped]
    exact .plain hencodes (by omega)

/-- What is written for a string is a text of it in quotes. -/
theorem exists_quoted_of_dumpString {string text : Bytes}
    (hwritten : dumpString string = some text) :
    ∃ inner, text = quoted inner ∧ StringText inner string := by
  rw [dumpString, Option.map_eq_some_iff] at hwritten
  obtain ⟨inner, hinner, rfl⟩ := hwritten
  have hvalid := isUtf8_of_dumpEscaped hinner
  rw [dumpEscaped_of_isUtf8 hvalid] at hinner
  obtain rfl := Option.some.inj hinner
  exact ⟨_, rfl, stringText_flatMap hvalid⟩

/-- A text with a comma before other texts. -/
theorem intercalate_cons {text : Bytes} {texts : List Bytes} (hnonempty : texts ≠ []) :
    List.intercalate (ascii ",") (text :: texts) =
      text ++ ascii "," ++ List.intercalate (ascii ",") texts := by
  obtain ⟨next, later, rfl⟩ := List.exists_cons_of_ne_nil hnonempty
  exact List.intercalate_cons_cons

/-- There is a text for each element. -/
theorem dumpElements_ne_nil {elements : List Json} {texts : List Bytes}
    (hnonempty : elements ≠ []) (hwritten : dumpElements toChars elements = some texts) :
    texts ≠ [] := by
  obtain ⟨first, elements, rfl⟩ := List.exists_cons_of_ne_nil hnonempty
  rintro rfl
  simp [dumpElements, Option.bind_eq_some_iff] at hwritten

/-- There is a text for each member. -/
theorem dumpMembers_ne_nil {members : List (Bytes × Json)} {texts : List Bytes}
    (hnonempty : members ≠ []) (hwritten : dumpMembers toChars members = some texts) :
    texts ≠ [] := by
  obtain ⟨⟨key, value⟩, members, rfl⟩ := List.exists_cons_of_ne_nil hnonempty
  rintro rfl
  simp [dumpMembers, Option.bind_eq_some_iff] at hwritten

/-- A value without blanks around it is an element. -/
theorem derives_element {text : Bytes} {value : Json}
    (hderives : Derives strtod text (.value value)) :
    Derives strtod text (.element value) := by
  have helement := Derives.element blanks_nil hderives blanks_nil
  rw [List.nil_append, List.append_nil] at helement
  exact helement

/-- The text of a finite number stands for it. -/
theorem derives_number {text : Bytes} {number : Number} (hshape : NumberText text)
    (hvalue : numberOf strtod text = number) (hfinite : number.isFinite = true) :
    Derives strtod text (.value (.number number)) := by
  subst hvalue
  exact .number hshape hfinite

/-- What is written for a number stands for what is read from it. -/
theorem derives_dumpNumber (hreads : ReadsBack strtod toChars) (number : Number) :
    Derives strtod (dumpNumber toChars number) (.value (rereadNumber number)) := by
  cases number with
  | unsigned value =>
    have hvalue := @numberOf_dumpInteger_natCast strtod value.toNat value.toNat_lt
    rw [UInt64.ofNat_toNat] at hvalue
    exact derives_number (numberText_dumpInteger value.toNat) hvalue rfl
  | integer value =>
    rw [dumpNumber, rereadNumber]
    split_ifs with hnegative
    · exact derives_number (numberText_dumpInteger value.toInt)
        (numberOf_dumpInteger_of_neg hnegative) rfl
    · have hsame : (value.toInt.toNat : ℤ) = value.toInt := Int.toNat_of_nonneg (by omega)
      have hrange := value.toInt_lt
      have hvalue := @numberOf_dumpInteger_natCast strtod value.toInt.toNat (by omega)
      rw [hsame] at hvalue
      exact derives_number (numberText_dumpInteger value.toInt) hvalue rfl
  | float value =>
    rw [dumpNumber, rereadNumber, dumpFloat]
    split_ifs with hfinite
    · refine derives_number (hreads.shape hfinite) ?_ hfinite
      rw [numberOf, hreads.floats hfinite, convertNumber, hreads.reads hfinite]
    · exact .null

mutual

/-- What is written for a value stands for what is read from it. -/
theorem derives_dump (hreads : ReadsBack strtod toChars)
    (value : Json) (hordered : Ordered value) {text : Bytes}
    (hwritten : dump toChars value = some text) : Derives strtod text (.value (reread value)) := by
  cases value with
  | null =>
    obtain rfl := Option.some.inj hwritten
    exact .null
  | boolean value =>
    obtain rfl := Option.some.inj hwritten
    cases value with
    | true => exact .literalTrue
    | false => exact .literalFalse
  | number value =>
    obtain rfl := Option.some.inj hwritten
    exact derives_dumpNumber hreads value
  | text value =>
    obtain ⟨inner, rfl, hinner⟩ := exists_quoted_of_dumpString hwritten
    exact .text hinner
  | array elements =>
    rw [dump, Option.map_eq_some_iff] at hwritten
    obtain ⟨texts, htexts, rfl⟩ := hwritten
    cases hordered with
    | array each =>
      by_cases hempty : elements = []
      · subst hempty
        obtain rfl := Option.some.inj htexts
        exact .emptyArray blanks_nil
      · exact .array (derives_dumpElements hreads elements hempty each htexts)
  | object members =>
    rw [dump, Option.map_eq_some_iff] at hwritten
    obtain ⟨texts, htexts, rfl⟩ := hwritten
    cases hordered with
    | object sorted each =>
      by_cases hempty : members = []
      · subst hempty
        obtain rfl := Option.some.inj htexts
        exact .emptyObject blanks_nil
      · have hobject := Derives.object
          (derives_dumpMembers hreads members hempty each htexts)
        rw [collect_of_sorted (sorted_rereadMembers sorted)] at hobject
        exact hobject

/-- What is written for the elements of an array stands for what is read from it. -/
theorem derives_dumpElements (hreads : ReadsBack strtod toChars)
    (elements : List Json) (hnonempty : elements ≠ [])
    (hordered : ∀ element ∈ elements, Ordered element) {texts : List Bytes}
    (hwritten : dumpElements toChars elements = some texts) :
    Derives strtod (List.intercalate (ascii ",") texts) (.elements (rereadElements elements)) := by
  cases elements with
  | nil => exact absurd rfl hnonempty
  | cons first elements =>
    simp only [dumpElements, Option.bind_eq_bind, Option.bind_eq_some_iff, Option.pure_def]
      at hwritten
    obtain ⟨text, htext, later, hlater, htexts⟩ := hwritten
    obtain rfl := Option.some.inj htexts
    obtain ⟨hfirst, hrest⟩ := List.forall_mem_cons.mp hordered
    have helement := derives_element (derives_dump hreads first hfirst htext)
    by_cases hempty : elements = []
    · subst hempty
      obtain rfl := Option.some.inj hlater
      rw [List.intercalate_singleton]
      exact .lastElement helement
    · have hderives := derives_dumpElements hreads elements hempty hrest hlater
      rw [intercalate_cons (dumpElements_ne_nil hempty hlater)]
      exact .moreElements helement hderives

/-- What is written for the members of an object stands for what is read from it. -/
theorem derives_dumpMembers (hreads : ReadsBack strtod toChars)
    (members : List (Bytes × Json)) (hnonempty : members ≠ [])
    (hordered : ∀ member ∈ members, Ordered member.2) {texts : List Bytes}
    (hwritten : dumpMembers toChars members = some texts) :
    Derives strtod (List.intercalate (ascii ",") texts) (.members (rereadMembers members)) := by
  cases members with
  | nil => exact absurd rfl hnonempty
  | cons first members =>
    obtain ⟨key, value⟩ := first
    simp only [dumpMembers, Option.bind_eq_bind, Option.bind_eq_some_iff, Option.pure_def]
      at hwritten
    obtain ⟨name, hname, text, htext, later, hlater, htexts⟩ := hwritten
    obtain rfl := Option.some.inj htexts
    obtain ⟨hfirst, hrest⟩ := List.forall_mem_cons.mp hordered
    obtain ⟨inner, rfl, hinner⟩ := exists_quoted_of_dumpString hname
    have hmember := Derives.member blanks_nil hinner blanks_nil
      (derives_element (derives_dump hreads value hfirst htext))
    rw [List.nil_append, List.append_nil] at hmember
    by_cases hempty : members = []
    · subst hempty
      obtain rfl := Option.some.inj hlater
      rw [List.intercalate_singleton]
      exact .lastMember hmember
    · have hderives := derives_dumpMembers hreads members hempty hrest hlater
      rw [intercalate_cons (dumpMembers_ne_nil hempty hlater)]
      exact .moreMembers hmember hderives

end

/-- The text of a value is a text that is parsed as it. -/
theorem isText_of_derives {text : Bytes} {value : Json}
    (hderives : Derives strtod text (.value value)) : IsText strtod text value := by
  refine ⟨[], [], text, [], [], ?_, .inl rfl, blanks_nil, hderives, blanks_nil, ?_⟩
  · simp
  · intro byte hbyte
    cases hbyte

/-- What is written for a value in order is parsed, as what is read from it. -/
theorem parse_of_dump (hreads : ReadsBack strtod toChars)
    {value : Json} (hordered : Ordered value) {text : Bytes}
    (hwritten : dump toChars value = some text) : parse strtod text = some (reread value) :=
  parse_of_isText (isText_of_derives (derives_dump hreads value hordered hwritten))

end Dump

/-! ### From the grammar to the serializer -/

/-- The strings of elements are valid when those of each are. -/
theorem allUtf8_stringsOfElements (elements : List Json) :
    AllUtf8 (stringsOfElements elements) ↔ ∀ element ∈ elements, AllUtf8 (strings element) := by
  induction elements with
  | nil => simp [stringsOfElements, AllUtf8]
  | cons element elements ih =>
    rw [stringsOfElements, allUtf8_append, ih, List.forall_mem_cons]

/-- The strings of members are valid when those of each and its key are. -/
theorem allUtf8_stringsOfMembers (members : List (Bytes × Json)) :
    AllUtf8 (stringsOfMembers members) ↔
      ∀ member ∈ members, IsUtf8 member.1 ∧ AllUtf8 (strings member.2) := by
  induction members with
  | nil => simp [stringsOfMembers, AllUtf8]
  | cons member members ih =>
    obtain ⟨key, value⟩ := member
    have hkey : AllUtf8 (key :: strings value) ↔ IsUtf8 key ∧ AllUtf8 (strings value) :=
      List.forall_mem_cons
    rw [stringsOfMembers, allUtf8_append, ih, hkey, List.forall_mem_cons]

/-- The numbers of elements have a property when those of each do. -/
theorem forall_numbersOfElements {property : Number → Prop} (elements : List Json) :
    (∀ number ∈ numbersOfElements elements, property number) ↔
      ∀ element ∈ elements, ∀ number ∈ numbers element, property number := by
  induction elements with
  | nil => simp [numbersOfElements]
  | cons element elements ih =>
    rw [numbersOfElements, List.forall_mem_append, ih, List.forall_mem_cons]

/-- The numbers of members have a property when those of each do. -/
theorem forall_numbersOfMembers {property : Number → Prop} (members : List (Bytes × Json)) :
    (∀ number ∈ numbersOfMembers members, property number) ↔
      ∀ member ∈ members, ∀ number ∈ numbers member.2, property number := by
  induction members with
  | nil => simp [numbersOfMembers]
  | cons member members ih =>
    obtain ⟨key, value⟩ := member
    rw [numbersOfMembers, List.forall_mem_append, ih, List.forall_mem_cons]

/-- A number that can come from the lexer: one that is read back as it is, or the zero that has been
written with a minus sign. -/
def Scanned (number : Number) : Prop :=
  Kept number ∨ number = .integer 0

/-- A value that can come from the parser. -/
structure IsClean (value : Json) : Prop where
  ordered : Ordered value
  valid : AllUtf8 (strings value)
  scanned : ∀ number ∈ numbers value, Scanned number

/-- All values of an item are clean, and its keys are valid. -/
def AllClean : Item → Prop
  | .value value => IsClean value
  | .element value => IsClean value
  | .elements values => ∀ value ∈ values, IsClean value
  | .member key value => IsUtf8 key ∧ IsClean value
  | .members members => ∀ member ∈ members, IsUtf8 member.1 ∧ IsClean member.2

section Clean

variable {strtod : Bytes → Double}

/-- The lexer makes such a number of every text of a finite one. -/
theorem scanned_numberOf {text : Bytes} (hfinite : (numberOf strtod text).isFinite = true) :
    Scanned (numberOf strtod text) := by
  unfold numberOf at hfinite ⊢
  generalize textType text = type at hfinite ⊢
  cases type with
  | unsigned =>
    simp only [convertNumber, strtoull] at hfinite ⊢
    split_ifs at hfinite ⊢ with hrange
    · exact .inl trivial
    · exact .inl hfinite
  | integer =>
    simp only [convertNumber, strtoll] at hfinite ⊢
    split_ifs at hfinite ⊢ with hrange
    · by_cases hzero : decimal text.tail = 0
      · rw [hzero]
        exact .inr rfl
      · have hvalue : (Int64.ofInt (-decimal text.tail)).toInt = -decimal text.tail :=
          Int64.toInt_ofInt_of_le (by omega) (by omega)
        refine .inl ?_
        show (Int64.ofInt (-decimal text.tail)).toInt < 0
        omega
    · exact .inl hfinite
  | float => exact .inl hfinite

/-- An array of clean values. -/
theorem isClean_array {elements : List Json} (heach : ∀ element ∈ elements, IsClean element) :
    IsClean (.array elements) where
  ordered := .array fun element helement ↦ (heach element helement).ordered
  valid := (allUtf8_stringsOfElements elements).mpr fun element helement ↦
    (heach element helement).valid
  scanned := (forall_numbersOfElements elements).mpr fun element helement ↦
    (heach element helement).scanned

/-- An object that is made of valid keys and clean values. -/
theorem isClean_object {members : List (Bytes × Json)}
    (heach : ∀ member ∈ members, IsUtf8 member.1 ∧ IsClean member.2) :
    IsClean (.object (collect members)) := by
  obtain ⟨hsorted, hmembers⟩ := sorted_collect members
  have hcollected : ∀ member ∈ collect members, IsUtf8 member.1 ∧ IsClean member.2 :=
    fun member hmember ↦ heach member (hmembers member hmember)
  exact ⟨.object hsorted fun member hmember ↦ (hcollected member hmember).2.ordered,
    (allUtf8_stringsOfMembers _).mpr fun member hmember ↦
      ⟨(hcollected member hmember).1, (hcollected member hmember).2.valid⟩,
    (forall_numbersOfMembers _).mpr fun member hmember ↦ (hcollected member hmember).2.scanned⟩

/-- Whatever a text of the grammar stands for is clean. -/
theorem Derives.isClean {text : Bytes} {item : Item} (hderives : Derives strtod text item) :
    AllClean item := by
  have hnone : AllUtf8 [] := fun string hstring ↦ absurd hstring List.not_mem_nil
  have hnonumber : ∀ number ∈ ([] : List Number), Scanned number :=
    fun number hnumber ↦ absurd hnumber List.not_mem_nil
  induction hderives with
  | null => exact ⟨.null, hnone, hnonumber⟩
  | literalTrue => exact ⟨.boolean true, hnone, hnonumber⟩
  | literalFalse => exact ⟨.boolean false, hnone, hnonumber⟩
  | number shape finite =>
    exact ⟨.number _, hnone, List.forall_mem_singleton.mpr (scanned_numberOf finite)⟩
  | text inside =>
    exact ⟨.text _, List.forall_mem_singleton.mpr (isUtf8_of_stringText inside), hnonumber⟩
  | emptyArray => exact isClean_array fun element helement ↦ absurd helement List.not_mem_nil
  | array _ ih => exact isClean_array ih
  | emptyObject =>
    exact @isClean_object [] fun member hmember ↦ absurd hmember List.not_mem_nil
  | object _ ih => exact isClean_object ih
  | element _ _ _ ih => exact ih
  | lastElement _ ih => exact List.forall_mem_singleton.mpr ih
  | moreElements _ _ ihfirst ihrest => exact List.forall_mem_cons.mpr ⟨ihfirst, ihrest⟩
  | member _ hname _ _ ih => exact ⟨isUtf8_of_stringText hname, ih⟩
  | lastMember _ ih => exact List.forall_mem_singleton.mpr ih
  | moreMembers _ _ ihfirst ihrest => exact List.forall_mem_cons.mpr ⟨ihfirst, ihrest⟩

/-- What is parsed is clean. -/
theorem isClean_of_parse {bytes : Bytes} {value : Json}
    (hparse : parse strtod bytes = some value) : IsClean value := by
  obtain ⟨_, _, _, _, _, _, _, _, hderives, _, _⟩ := isText_of_parse hparse
  exact hderives.isClean

end Clean

/-! ### Round trips -/

section RoundTrips

variable {strtod : Bytes → Double} {toChars : Double → Bytes}

/-- A value in order with valid strings is written, and what is written is parsed. -/
theorem exists_dump_parse (hreads : ReadsBack strtod toChars) {value : Json}
    (hordered : Ordered value) (hvalid : AllUtf8 (strings value)) :
    ∃ text, dump toChars value = some text ∧ parse strtod text = some (reread value) := by
  obtain ⟨text, htext⟩ := Option.isSome_iff_exists.mp ((dump_isSome_iff toChars value).mpr hvalid)
  exact ⟨text, htext, parse_of_dump hreads hordered htext⟩

/-- The serializer and the parser undo each other on a value exactly when the keys of its objects
are in order, all its strings are valid, and its numbers have the kinds of the lexer: no signed
integer is positive or zero, and no `double` is infinite or no number. -/
theorem roundTrip_iff (hreads : ReadsBack strtod toChars) (value : Json) :
    (∃ text, dump toChars value = some text ∧ parse strtod text = some value) ↔
      Ordered value ∧ AllUtf8 (strings value) ∧ ∀ number ∈ numbers value, Kept number := by
  constructor
  · rintro ⟨text, hwritten, hparse⟩
    have hclean := isClean_of_parse hparse
    have hread := parse_of_dump hreads hclean.ordered hwritten
    rw [hparse, Option.some.injEq] at hread
    exact ⟨hclean.ordered, hclean.valid, (reread_eq_iff value).mp hread.symm⟩
  · rintro ⟨hordered, hvalid, hkept⟩
    obtain ⟨text, hwritten, hparse⟩ := exists_dump_parse hreads hordered hvalid
    rw [(reread_eq_iff value).mpr hkept] at hparse
    exact ⟨text, hwritten, hparse⟩

/-- A text for a `double` that tells its bits, which for zero is that of the library. -/
def bitsText (value : Double) : Bytes :=
  dumpDigits value.toNat ++ ascii ".0"

/-- The bits that such a text tells. -/
def textBits (text : Bytes) : Double :=
  .ofNat 64 (decimal (text.takeWhile isDigit))

/-- A number that is written with a fraction. -/
theorem numberText_bitsText (value : Double) : NumberText (bitsText value) := by
  have hfraction : FractionText (ascii ".0") := by
    simp [FractionText, isPoint, ExponentText, ascii, isDigit]
  by_cases hzero : value.toNat = 0
  · rw [bitsText, hzero]
    simpa [NumberText, UnsignedText, dumpDigits, decimalDigit] using hfraction
  · have hdigits := isDigit_of_mem_dumpDigits value.toNat
    obtain ⟨first, later, hsplit, hfirst⟩ := exists_head_dumpDigits (Nat.pos_of_ne_zero hzero)
    rw [hsplit] at hdigits
    obtain ⟨hhead, hlater⟩ := List.forall_mem_cons.mp hdigits
    simp only [isDigit, decide_eq_true_eq] at hhead
    rw [bitsText, hsplit, List.cons_append]
    refine .inr (.inr (one_cons_iff.mpr ⟨?_, later, ascii ".0", rfl, hlater, hfraction⟩))
    rw [decide_eq_true_eq]
    omega

/-- These texts are read back. -/
theorem readsBack_bits : ReadsBack textBits bitsText where
  shape := fun {value} _ ↦ numberText_bitsText value
  floats := by
    intro value _
    refine if_pos (List.any_eq_true.mpr ⟨0x2E, ?_, rfl⟩)
    exact List.mem_append_right _ List.mem_cons_self
  reads := by
    intro value _
    have hdigits := isDigit_of_mem_dumpDigits value.toNat
    have htake : (bitsText value).takeWhile isDigit = dumpDigits value.toNat := by
      rw [bitsText, List.takeWhile_append_of_pos hdigits]
      exact List.append_nil _
    rw [textBits, htake, decimal_dumpDigits, BitVec.ofNat_toNat, BitVec.setWidth_eq]

/-- An object with an array of numbers of every kind and a string that needs an escape. -/
def everyKind : Json :=
  .object [(ascii "list", .array [.number (.unsigned 120), .number (.integer (-12)),
    .number (.float 0)]), (ascii "text", .text (ascii "kobold\n"))]

/-- Such an object is written and read back. -/
theorem roundTrip_iff_everyKind :
    ∃ text, dump bitsText everyKind = some text ∧ parse textBits text = some everyKind := by
  have hless : ascii "list" < ascii "text" := by decide
  have hsorted : Sorted [(ascii "list", Json.array [.number (.unsigned 120),
      .number (.integer (-12)), .number (.float 0)]),
      (ascii "text", .text (ascii "kobold\n"))] := by
    refine List.pairwise_cons.mpr ⟨fun member hmember ↦ ?_, List.pairwise_singleton _ _⟩
    rw [List.mem_singleton.mp hmember]
    exact hless
  have hordered : Ordered everyKind := by
    refine .object hsorted (List.forall_mem_cons.mpr ⟨.array ?_, ?_⟩)
    · simpa using ⟨.number _, .number _, .number _⟩
    · exact List.forall_mem_singleton.mpr (.text _)
  have hvalid : AllUtf8 (strings everyKind) := by
    have hstrings : strings everyKind = [ascii "list", ascii "text", ascii "kobold\n"] := rfl
    rw [hstrings]
    refine List.forall_mem_cons.mpr ⟨⟨"list".toList, by decide⟩, List.forall_mem_cons.mpr
      ⟨⟨"text".toList, by decide⟩, List.forall_mem_singleton.mpr ⟨"kobold\n".toList, by decide⟩⟩⟩
  have hkept : ∀ number ∈ numbers everyKind, Kept number := by
    have hnumbers : numbers everyKind = [.unsigned 120, .integer (-12), .float 0] := rfl
    rw [hnumbers]
    refine List.forall_mem_cons.mpr ⟨trivial, List.forall_mem_cons.mpr
      ⟨by show (-12 : Int64).toInt < 0; decide, List.forall_mem_singleton.mpr rfl⟩⟩
  exact (roundTrip_iff readsBack_bits everyKind).mpr ⟨hordered, hvalid, hkept⟩

/-- The serializer never throws on a value that has been parsed, and the parser reads the value
again from what is written for it, in which at most a zero with a minus sign has become one
without. -/
theorem dump_of_parse (hreads : ReadsBack strtod toChars) {bytes : Bytes} {value : Json}
    (hparse : parse strtod bytes = some value) :
    (∃ text, dump toChars value = some text ∧ parse strtod text = some (reread value)) ∧
      ∀ number ∈ numbers value,
        rereadNumber number = .number number ∨
          number = .integer 0 ∧ rereadNumber number = .number (.unsigned 0) := by
  have hclean := isClean_of_parse hparse
  refine ⟨exists_dump_parse hreads hclean.ordered hclean.valid, fun number hnumber ↦ ?_⟩
  rcases hclean.scanned number hnumber with hkept | rfl
  · exact .inl ((rereadNumber_eq_iff number).mpr hkept)
  · exact .inr ⟨rfl, rfl⟩

/-- An escape, a key that comes twice, blanks and a minus sign before a zero are not written
again. -/
theorem dump_of_parse_twice :
    parse textBits (ascii "\x7b\"b\": 1, \"a\": [-0, 25], \"b\": \"\\u0041\"\x7d") =
        some (.object [(ascii "a", .array [.number (.integer 0), .number (.unsigned 25)]),
          (ascii "b", .text (ascii "A"))]) ∧
      ∃ text, dump bitsText (.object [(ascii "a", .array [.number (.integer 0),
          .number (.unsigned 25)]), (ascii "b", .text (ascii "A"))]) = some text ∧
        parse textBits text = some (.object [(ascii "a", .array [.number (.unsigned 0),
          .number (.unsigned 25)]), (ascii "b", .text (ascii "A"))]) := by
  have hparse : parse textBits
      (ascii "\x7b\"b\": 1, \"a\": [-0, 25], \"b\": \"\\u0041\"\x7d") =
        some (.object [(ascii "a", .array [.number (.integer 0), .number (.unsigned 25)]),
          (ascii "b", .text (ascii "A"))]) := by rfl
  exact ⟨hparse, (dump_of_parse readsBack_bits hparse).1⟩

end RoundTrips

end KoboldKhat.Parser
