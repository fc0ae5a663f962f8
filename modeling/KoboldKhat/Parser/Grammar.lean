import KoboldKhat.Parser.Lexemes
import KoboldKhat.Parser.Machine

/-!
# The grammar of JSON and the parser

`Derives` is the grammar of JSON texts with the values they stand for, without a parser: a value,
an element, which is a value between blanks, the elements of an array and the members of an object,
separated by commas. The loop of the parser keeps its own stack instead of following the grammar,
and the bound on its turns is never what ends it (`runLoop_bound`). Both come to the same: from a
text of the grammar the loop gets to its value with the stack as it was (`Derives.runs`), and
whatever the loop accepts is a text of the grammar (`sound`).

`parse_eq_some_iff` is the result on whole inputs: `json::parse` accepts exactly the JSON texts,
with blanks around them, behind an optional byte order mark, and before the end or a byte zero, from
which on it ignores the input.
-/

set_option autoImplicit false
set_option relaxedAutoImplicit false

namespace KoboldKhat.Parser

/-! ### The grammar -/

/-- What a text of the grammar stands for. -/
inductive Item
  | value (value : Json)
  | element (value : Json)
  | elements (values : List Json)
  | member (key : Bytes) (value : Json)
  | members (members : List (Bytes × Json))

/-- The grammar of JSON texts, with what they stand for. An object has the last value of each of its
keys. -/
inductive Derives (strtod : Bytes → Double) : Bytes → Item → Prop
  | null : Derives strtod (ascii "null") (.value .null)
  | literalTrue : Derives strtod (ascii "true") (.value (.boolean true))
  | literalFalse : Derives strtod (ascii "false") (.value (.boolean false))
  | number {text : Bytes} (shape : NumberText text)
      (finite : (numberOf strtod text).isFinite = true) :
      Derives strtod text (.value (.number (numberOf strtod text)))
  | text {text string : Bytes} (inside : StringText text string) :
      Derives strtod (quoted text) (.value (.text string))
  | emptyArray {blanks : Bytes} (inside : Blanks blanks) :
      Derives strtod (ascii "[" ++ blanks ++ ascii "]") (.value (.array []))
  | array {text : Bytes} {values : List Json} (inside : Derives strtod text (.elements values)) :
      Derives strtod (ascii "[" ++ text ++ ascii "]") (.value (.array values))
  | emptyObject {blanks : Bytes} (inside : Blanks blanks) :
      Derives strtod (ascii "\x7b" ++ blanks ++ ascii "\x7d") (.value (.object []))
  | object {text : Bytes} {members : List (Bytes × Json)}
      (inside : Derives strtod text (.members members)) :
      Derives strtod (ascii "\x7b" ++ text ++ ascii "\x7d") (.value (.object (collect members)))
  | element {before text after : Bytes} {value : Json} (hbefore : Blanks before)
      (inside : Derives strtod text (.value value)) (hafter : Blanks after) :
      Derives strtod (before ++ text ++ after) (.element value)
  | lastElement {text : Bytes} {value : Json} (only : Derives strtod text (.element value)) :
      Derives strtod text (.elements [value])
  | moreElements {text others : Bytes} {value : Json} {values : List Json}
      (first : Derives strtod text (.element value))
      (rest : Derives strtod others (.elements values)) :
      Derives strtod (text ++ ascii "," ++ others) (.elements (value :: values))
  | member {before name after text key : Bytes} {value : Json} (hbefore : Blanks before)
      (hname : StringText name key) (hafter : Blanks after)
      (inside : Derives strtod text (.element value)) :
      Derives strtod (before ++ quoted name ++ after ++ ascii ":" ++ text) (.member key value)
  | lastMember {text key : Bytes} {value : Json}
      (only : Derives strtod text (.member key value)) :
      Derives strtod text (.members [(key, value)])
  | moreMembers {text others key : Bytes} {value : Json} {members : List (Bytes × Json)}
      (first : Derives strtod text (.member key value))
      (rest : Derives strtod others (.members members)) :
      Derives strtod (text ++ ascii "," ++ others) (.members ((key, value) :: members))

/-! ### Turns of the loop -/

variable {strtod : Bytes → Double}

/-- One turn of the loop that goes on. -/
def Goes (strtod : Bytes → Double) (state next : State) : Prop :=
  step strtod state = .goes next

/-- Some turns of the loop. -/
def Leads (strtod : Bytes → Double) : State → State → Prop :=
  Relation.ReflTransGen (Goes strtod)

section Turns

variable {state next : State} {result : Json × Bytes} {turns : ℕ}

/-- More turns do not change a result. -/
theorem runLoop_mono (hresult : runLoop strtod turns state = some result) {more : ℕ}
    (hmore : turns ≤ more) : runLoop strtod more state = some result := by
  induction turns generalizing state more with
  | zero => cases hresult
  | succ turns ih =>
    obtain ⟨more, rfl⟩ := Nat.exists_eq_succ_of_ne_zero (by omega : more ≠ 0)
    rw [runLoop] at hresult ⊢
    cases hstep : step strtod state with
    | throws => simp [hstep] at hresult
    | returns value rest => simpa [hstep] using hresult
    | goes next =>
      simp only [hstep] at hresult ⊢
      exact ih hresult (by omega)

/-- Before a value the bound is the input that is left. -/
theorem bound_enter (bytes : Bytes) (frames : List Frame) :
    bound (enter bytes frames) ≤ 2 * bytes.length := by
  have hlength := scan_length_le bytes
  unfold bound enter
  dsimp only
  by_cases hend : (scan bytes).1 = .endOfInput
  · rw [if_pos hend]
    omega
  · have hshorter := scan_length hend
    rw [if_neg hend]
    omega

/-- A key with its separator takes input. -/
theorem bound_readKey {token : Token} {rest : Bytes} {members : List (Bytes × Json)}
    {frames : List Frame} (hread : readKey token rest members frames = .goes next) :
    bound next ≤ 2 * rest.length := by
  cases token with
  | valueString key =>
    simp only [readKey] at hread
    split_ifs at hread
    obtain rfl := Turn.goes.inj hread
    have hentered := bound_enter (scan rest).2 (.object members key :: frames)
    have hlength := scan_length_le rest
    omega
  | _ => cases hread

/-- Every turn that goes on lowers the bound. -/
theorem bound_lt (hgoes : Goes strtod state next) : bound next < bound state := by
  obtain ⟨phase, rest, frames⟩ := state
  have hscan := scan_length_le rest
  have hshorter : ∀ {token : Token}, token ≠ .endOfInput → (scan rest).1 = token →
      (scan rest).2.length < rest.length := by
    rintro token hend rfl
    exact scan_length hend
  cases phase with
  | token lastToken =>
    have hgoes : switch strtod lastToken rest frames = .goes next := hgoes
    have hbound : lastToken ≠ .endOfInput →
        bound ⟨.token lastToken, rest, frames⟩ = 2 * rest.length + 1 := by
      intro hend
      simp [bound, hend]
    have hcomplete : ∀ value remaining, remaining.length ≤ rest.length →
        bound ⟨.complete value, remaining, frames⟩ < 2 * rest.length + 1 := by
      intro value remaining hremaining
      simp only [bound]
      omega
    cases lastToken with
    | endArray | endObject | nameSeparator | valueSeparator | parseError | endOfInput => cases hgoes
    | literalTrue | literalFalse | literalNull | valueString =>
      obtain rfl := Turn.goes.inj hgoes
      rw [hbound (by simp)]
      exact hcomplete _ rest (Nat.le_refl _)
    | valueNumber text =>
      simp only [switch] at hgoes
      split_ifs at hgoes
      obtain rfl := Turn.goes.inj hgoes
      rw [hbound (by simp)]
      exact hcomplete _ rest (Nat.le_refl _)
    | beginArray =>
      rw [hbound (by simp)]
      simp only [switch] at hgoes
      split_ifs at hgoes
      · obtain rfl := Turn.goes.inj hgoes
        exact hcomplete _ _ hscan
      · obtain rfl := Turn.goes.inj hgoes
        exact Nat.lt_succ_of_le (bound_enter rest (.array [] :: frames))
    | beginObject =>
      rw [hbound (by simp)]
      simp only [switch] at hgoes
      split_ifs at hgoes
      · obtain rfl := Turn.goes.inj hgoes
        exact hcomplete _ _ hscan
      · have hread := bound_readKey hgoes
        omega
  | complete value =>
    have hgoes : evaluate value rest frames = .goes next := hgoes
    show bound next < 2 * rest.length
    cases frames with
    | nil => cases hgoes
    | cons frame frames =>
      cases frame with
      | array elements =>
        simp only [evaluate] at hgoes
        split_ifs at hgoes with hcomma hclosed
        · obtain rfl := Turn.goes.inj hgoes
          have hentered := bound_enter (scan rest).2 (.array (elements ++ [value]) :: frames)
          have hless := hshorter (by simp) hcomma
          omega
        · obtain rfl := Turn.goes.inj hgoes
          have hless := hshorter (by simp) hclosed
          simp only [bound]
          omega
      | object members key =>
        simp only [evaluate] at hgoes
        split_ifs at hgoes with hcomma hclosed
        · have hread := bound_readKey hgoes
          have hless := hshorter (by simp) hcomma
          have hnext := scan_length_le (scan rest).2
          omega
        · obtain rfl := Turn.goes.inj hgoes
          have hless := hshorter (by simp) hclosed
          simp only [bound]
          omega

/-- The bound is enough turns: a result with any number of turns is there within the bound. -/
theorem runLoop_bound (hresult : runLoop strtod turns state = some result) :
    runLoop strtod (bound state + 1) state = some result := by
  induction turns generalizing state with
  | zero => cases hresult
  | succ turns ih =>
    rw [runLoop] at hresult ⊢
    cases hstep : step strtod state with
    | throws => simp [hstep] at hresult
    | returns value rest => simpa [hstep] using hresult
    | goes next =>
      simp only [hstep] at hresult ⊢
      exact runLoop_mono (ih hresult) (bound_lt hstep)

/-- The loop gets a result from where some turns lead. -/
theorem exists_runLoop_of_leads (hleads : Leads strtod state next)
    (hresult : runLoop strtod turns next = some result) :
    ∃ turns, runLoop strtod turns state = some result := by
  induction hleads using Relation.ReflTransGen.head_induction_on with
  | refl => exact ⟨turns, hresult⟩
  | head hgoes _ ih =>
    obtain ⟨turns, hturns⟩ := ih
    refine ⟨turns + 1, ?_⟩
    have hstep : step strtod _ = .goes _ := hgoes
    rw [runLoop, hstep]
    exact hturns

end Turns

/-! ### From the grammar to the loop -/

/-- A value is read to its end. -/
def Ends (value : Json) (rest : Bytes) : Prop :=
  ∀ number, value = .number number → EndsNumber rest

/-- From the text of an item the loop gets to the item, with anything behind it that does not
continue a number. -/
def Runs (strtod : Bytes → Double) (text : Bytes) : Item → Prop
  | .value value => ∀ rest frames, Ends value rest →
      Leads strtod (enter (text ++ rest) frames) ⟨.complete value, rest, frames⟩
  | .element value => ∀ rest frames, EndsNumber rest → ∃ after, Blanks after ∧
      Leads strtod (enter (text ++ rest) frames) ⟨.complete value, after ++ rest, frames⟩
  | .elements values => ∀ before rest frames,
      Leads strtod (enter (text ++ ascii "]" ++ rest) (.array before :: frames))
        ⟨.complete (.array (before ++ values)), rest, frames⟩
  | .member key value => ∀ before rest frames, EndsNumber rest → ∃ after state, Blanks after ∧
      readKey (scan (text ++ rest)).1 (scan (text ++ rest)).2 before frames = .goes state ∧
      Leads strtod state ⟨.complete value, after ++ rest, .object before key :: frames⟩
  | .members members => ∀ before rest frames, ∃ state,
      readKey (scan (text ++ ascii "\x7d" ++ rest)).1 (scan (text ++ ascii "\x7d" ++ rest)).2 before
        frames = .goes state ∧
      Leads strtod state
        ⟨.complete (.object (members.foldl (fun object member ↦ insert member.1 member.2 object)
          before)), rest, frames⟩

section Runs

variable {bytes blanks text rest after : Bytes} {token : Token} {value : Json}
  {frames : List Frame} {state : State}

theorem continues_of_isBlank {byte : UInt8} (hblank : isBlank byte = true) :
    continues byte = false := by
  simp only [isBlank, Bool.or_eq_true, beq_iff_eq] at hblank
  rcases hblank with ((rfl | rfl) | rfl) | rfl <;> decide

/-- Blanks end a number. -/
theorem endsNumber_append (hafter : Blanks after) (hrest : EndsNumber rest) :
    EndsNumber (after ++ rest) := by
  cases after with
  | nil => exact hrest
  | cons first later =>
    intro byte hbyte
    obtain rfl := Option.some.inj hbyte
    exact continues_of_isBlank (hafter first List.mem_cons_self)

/-- A text that begins with a byte that continues no number ends one. -/
theorem endsNumber_cons {first : UInt8} (hfirst : continues first = false) (later : Bytes) :
    EndsNumber (first :: later) := by
  intro byte hbyte
  obtain rfl := Option.some.inj hbyte
  exact hfirst

/-- Blanks before a value are skipped. -/
theorem enter_blanks (hblanks : Blanks blanks) (bytes : Bytes) (frames : List Frame) :
    enter (blanks ++ bytes) frames = enter bytes frames := by
  rw [enter, enter, scan_blanks hblanks]

/-- A turn from a token that has been read. -/
theorem leads_of_scan (hscan : scan bytes = (token, rest))
    (hswitch : switch strtod token rest frames = .goes state) :
    Leads strtod (enter bytes frames) state := by
  refine Relation.ReflTransGen.single ?_
  rw [Goes, enter, hscan]
  exact hswitch

/-- From a token that begins no value the loop gets to no value. -/
theorem not_leads_of_throws {others : List Frame}
    (hswitch : switch strtod token bytes frames = .throws) :
    ¬ Leads strtod ⟨.token token, bytes, frames⟩ ⟨.complete value, rest, others⟩ := by
  intro hleads
  rcases Relation.ReflTransGen.cases_head hleads with hsame | ⟨next, hgoes, -⟩
  · cases hsame
  · have hgoes : switch strtod token bytes frames = .goes next := hgoes
    rw [hswitch] at hgoes
    cases hgoes

/-- Nothing is blank. -/
theorem blanks_nil : Blanks [] :=
  fun _ hbyte ↦ absurd hbyte List.not_mem_nil

/-- A token with one text is taken. -/
theorem scan_spelled (token : Token) (honly : spelling token = some text) (rest : Bytes) :
    scan (text ++ rest) = (token, rest) :=
  scan_spelling blanks_nil honly rest

/-- A string is taken. -/
theorem scan_quoted {name key : Bytes} (hblanks : Blanks blanks) (hname : StringText name key)
    (rest : Bytes) : scan (blanks ++ quoted name ++ rest) = (.valueString key, rest) :=
  scan_lexeme hblanks (.string hname) fun _ _ hnumber ↦ by cases hnumber

/-- An array with nothing in it. -/
theorem leads_emptyArray (hblanks : Blanks blanks) (rest : Bytes) (frames : List Frame) :
    Leads strtod (enter (ascii "[" ++ blanks ++ ascii "]" ++ rest) frames)
      ⟨.complete (.array []), rest, frames⟩ := by
  have hopens : scan (ascii "[" ++ blanks ++ ascii "]" ++ rest) =
      (.beginArray, blanks ++ ascii "]" ++ rest) := by
    rw [List.append_assoc, List.append_assoc, ← List.append_assoc blanks]
    exact scan_spelled .beginArray rfl _
  refine leads_of_scan hopens ?_
  rw [switch, scan_spelling hblanks (rfl : spelling .endArray = some (ascii "]"))]
  exact if_pos rfl

/-- An array, once its elements have been read. -/
theorem leads_array {values : List Json}
    (hinside : Leads strtod (enter (text ++ ascii "]" ++ rest) (.array [] :: frames))
      ⟨.complete (.array values), rest, frames⟩) :
    Leads strtod (enter (ascii "[" ++ text ++ ascii "]" ++ rest) frames)
      ⟨.complete (.array values), rest, frames⟩ := by
  have hopens : scan (ascii "[" ++ text ++ ascii "]" ++ rest) =
      (.beginArray, text ++ ascii "]" ++ rest) := by
    rw [List.append_assoc, List.append_assoc, ← List.append_assoc text]
    exact scan_spelled .beginArray rfl _
  have hnotclosed : (scan (text ++ ascii "]" ++ rest)).1 ≠ .endArray := by
    intro hclosed
    rw [enter, hclosed] at hinside
    exact not_leads_of_throws rfl hinside
  refine (leads_of_scan hopens ?_).trans hinside
  rw [switch]
  exact if_neg hnotclosed

/-- An object with nothing in it. -/
theorem leads_emptyObject (hblanks : Blanks blanks) (rest : Bytes) (frames : List Frame) :
    Leads strtod (enter (ascii "\x7b" ++ blanks ++ ascii "\x7d" ++ rest) frames)
      ⟨.complete (.object []), rest, frames⟩ := by
  have hopens : scan (ascii "\x7b" ++ blanks ++ ascii "\x7d" ++ rest) =
      (.beginObject, blanks ++ ascii "\x7d" ++ rest) := by
    rw [List.append_assoc, List.append_assoc, ← List.append_assoc blanks]
    exact scan_spelled .beginObject rfl _
  refine leads_of_scan hopens ?_
  rw [switch, scan_spelling hblanks (rfl : spelling .endObject = some (ascii "\x7d"))]
  exact if_pos rfl

/-- An object, once its members have been read. -/
theorem leads_object {members : List (Bytes × Json)}
    (hread : readKey (scan (text ++ ascii "\x7d" ++ rest)).1
      (scan (text ++ ascii "\x7d" ++ rest)).2 [] frames = .goes state)
    (hinside : Leads strtod state ⟨.complete (.object members), rest, frames⟩) :
    Leads strtod (enter (ascii "\x7b" ++ text ++ ascii "\x7d" ++ rest) frames)
      ⟨.complete (.object members), rest, frames⟩ := by
  have hopens : scan (ascii "\x7b" ++ text ++ ascii "\x7d" ++ rest) =
      (.beginObject, text ++ ascii "\x7d" ++ rest) := by
    rw [List.append_assoc, List.append_assoc, ← List.append_assoc text]
    exact scan_spelled .beginObject rfl _
  have hnotclosed : (scan (text ++ ascii "\x7d" ++ rest)).1 ≠ .endObject := by
    intro hclosed
    rw [hclosed] at hread
    cases hread
  refine (leads_of_scan hopens ?_).trans hinside
  rw [switch]
  exact (if_neg hnotclosed).trans hread

/-- A turn behind the switch. -/
theorem leads_of_evaluate (hevaluate : evaluate value rest frames = .goes state) :
    Leads strtod ⟨.complete value, rest, frames⟩ state :=
  Relation.ReflTransGen.single hevaluate

/-- The last element closes its array. -/
theorem leads_endArray (hblanks : Blanks blanks) (value : Json) (before : List Json)
    (rest : Bytes) (frames : List Frame) :
    Leads strtod ⟨.complete value, blanks ++ ascii "]" ++ rest, .array before :: frames⟩
      ⟨.complete (.array (before ++ [value])), rest, frames⟩ := by
  refine leads_of_evaluate ?_
  simp only [evaluate, scan_spelling hblanks (rfl : spelling .endArray = some (ascii "]"))]
  rfl

/-- A comma in an array. -/
theorem leads_arrayComma (hblanks : Blanks blanks) (value : Json) (before : List Json)
    (rest : Bytes) (frames : List Frame) :
    Leads strtod ⟨.complete value, blanks ++ ascii "," ++ rest, .array before :: frames⟩
      (enter rest (.array (before ++ [value]) :: frames)) := by
  refine leads_of_evaluate ?_
  simp only [evaluate, scan_spelling hblanks (rfl : spelling .valueSeparator = some (ascii ","))]
  rfl

/-- The last member closes its object. -/
theorem leads_endObject (hblanks : Blanks blanks) (value : Json) (before : List (Bytes × Json))
    (key rest : Bytes) (frames : List Frame) :
    Leads strtod ⟨.complete value, blanks ++ ascii "\x7d" ++ rest, .object before key :: frames⟩
      ⟨.complete (.object (insert key value before)), rest, frames⟩ := by
  refine leads_of_evaluate ?_
  simp only [evaluate, scan_spelling hblanks (rfl : spelling .endObject = some (ascii "\x7d"))]
  rfl

/-- A comma in an object, and the key behind it. -/
theorem leads_objectComma (hblanks : Blanks blanks) (value : Json) {before : List (Bytes × Json)}
    {key : Bytes}
    (hread : readKey (scan rest).1 (scan rest).2 (insert key value before) frames = .goes state) :
    Leads strtod ⟨.complete value, blanks ++ ascii "," ++ rest, .object before key :: frames⟩
      state := by
  refine leads_of_evaluate ?_
  simp only [evaluate, scan_spelling hblanks (rfl : spelling .valueSeparator = some (ascii ","))]
  exact hread

/-- A key and its separator. -/
theorem readKey_quoted {name key : Bytes} (hblanks : Blanks blanks) (hname : StringText name key)
    (hafter : Blanks after) (rest : Bytes) (before : List (Bytes × Json)) (frames : List Frame) :
    readKey (scan (blanks ++ quoted name ++ (after ++ ascii ":" ++ rest))).1
      (scan (blanks ++ quoted name ++ (after ++ ascii ":" ++ rest))).2 before frames =
        .goes (enter rest (.object before key :: frames)) := by
  rw [scan_quoted hblanks hname]
  simp only [readKey, scan_spelling hafter (rfl : spelling .nameSeparator = some (ascii ":"))]
  rfl

/-- From a text of the grammar the loop gets to what it stands for. -/
theorem Derives.runs {item : Item} (hderives : Derives strtod text item) :
    Runs strtod text item := by
  have hbracket : ∀ rest, EndsNumber (ascii "]" ++ rest) := endsNumber_cons (by decide)
  have hbrace : ∀ rest, EndsNumber (ascii "\x7d" ++ rest) := endsNumber_cons (by decide)
  have hcomma : ∀ rest, EndsNumber (ascii "," ++ rest) := endsNumber_cons (by decide)
  induction hderives with
  | null => exact fun rest frames _ ↦ leads_of_scan (scan_spelled .literalNull rfl rest) rfl
  | literalTrue => exact fun rest frames _ ↦ leads_of_scan (scan_spelled .literalTrue rfl rest) rfl
  | literalFalse =>
    exact fun rest frames _ ↦ leads_of_scan (scan_spelled .literalFalse rfl rest) rfl
  | @number text shape finite =>
    intro rest frames hends
    have hscan : scan ([] ++ text ++ rest) = (.valueNumber (textType text) text, rest) :=
      scan_lexeme blanks_nil (.number shape) fun _ _ _ ↦ hends _ rfl
    refine leads_of_scan hscan ?_
    rw [numberOf] at finite ⊢
    rw [switch, if_pos finite]
  | @text text string inside =>
    exact fun rest frames _ ↦ leads_of_scan (scan_quoted blanks_nil inside rest) rfl
  | @emptyArray blanks inside => exact fun rest frames _ ↦ leads_emptyArray inside rest frames
  | @array text values inside ih => exact fun rest frames _ ↦ leads_array (ih [] rest frames)
  | @emptyObject blanks inside => exact fun rest frames _ ↦ leads_emptyObject inside rest frames
  | @object text members inside ih =>
    intro rest frames _
    obtain ⟨state, hread, hleads⟩ := ih [] rest frames
    exact leads_object hread hleads
  | @element before text after value hbefore inside hafter ih =>
    intro rest frames hends
    refine ⟨after, hafter, ?_⟩
    rw [List.append_assoc, List.append_assoc, enter_blanks hbefore]
    exact ih (after ++ rest) frames fun _ _ ↦ endsNumber_append hafter hends
  | @lastElement text value only ih =>
    intro before rest frames
    obtain ⟨after, hafter, hleads⟩ :=
      ih (ascii "]" ++ rest) (.array before :: frames) (hbracket rest)
    rw [← List.append_assoc, ← List.append_assoc] at hleads
    exact hleads.trans (leads_endArray hafter value before rest frames)
  | @moreElements text others value values first rest ihfirst ihrest =>
    intro before remaining frames
    have hfirst := ihfirst (ascii "," ++ (others ++ ascii "]" ++ remaining))
      (.array before :: frames) (hcomma _)
    obtain ⟨after, hafter, hleads⟩ := hfirst
    have hrest := ihrest (before ++ [value]) remaining frames
    rw [List.append_assoc before, List.singleton_append] at hrest
    have hsplit : text ++ ascii "," ++ others ++ ascii "]" ++ remaining =
        text ++ (ascii "," ++ (others ++ ascii "]" ++ remaining)) := by
      simp only [List.append_assoc]
    rw [hsplit]
    rw [← List.append_assoc after] at hleads
    exact (hleads.trans (leads_arrayComma hafter value before _ frames)).trans hrest
  | @member before name after text key value hbefore hname hafter inside ih =>
    intro object rest frames hends
    obtain ⟨behind, hbehind, hleads⟩ := ih rest (.object object key :: frames) hends
    refine ⟨behind, _, hbehind, ?_, hleads⟩
    have hsplit : before ++ quoted name ++ after ++ ascii ":" ++ text ++ rest =
        before ++ quoted name ++ (after ++ ascii ":" ++ (text ++ rest)) := by
      simp only [List.append_assoc]
    rw [hsplit]
    exact readKey_quoted hbefore hname hafter (text ++ rest) object frames
  | @lastMember text key value only ih =>
    intro before rest frames
    obtain ⟨after, state, hafter, hread, hleads⟩ :=
      ih before (ascii "\x7d" ++ rest) frames (hbrace rest)
    rw [← List.append_assoc] at hread hleads
    exact ⟨state, hread, hleads.trans (leads_endObject hafter value before key rest frames)⟩
  | @moreMembers text others key value members first rest ihfirst ihrest =>
    intro before remaining frames
    have hfirst := ihfirst before (ascii "," ++ (others ++ ascii "\x7d" ++ remaining)) frames
      (hcomma _)
    obtain ⟨after, state, hafter, hread, hleads⟩ := hfirst
    obtain ⟨next, hnext, hlater⟩ := ihrest (insert key value before) remaining frames
    have hsplit : text ++ ascii "," ++ others ++ ascii "\x7d" ++ remaining =
        text ++ (ascii "," ++ (others ++ ascii "\x7d" ++ remaining)) := by
      simp only [List.append_assoc]
    rw [hsplit]
    rw [← List.append_assoc after] at hleads
    exact ⟨state, hread, (hleads.trans (leads_objectComma hafter value hnext)).trans hlater⟩

end Runs

/-! ### From the loop to the grammar -/

/-- What is left of the elements of an array behind a value. -/
def ElementsRest (strtod : Bytes → Double) (text : Bytes) (values : List Json) : Prop :=
  ∃ after, Blanks after ∧ (text = after ∧ values = [] ∨
    ∃ others, text = after ++ ascii "," ++ others ∧ Derives strtod others (.elements values))

/-- What is left of the members of an object behind a value. -/
def MembersRest (strtod : Bytes → Double) (text : Bytes) (members : List (Bytes × Json)) : Prop :=
  ∃ after, Blanks after ∧ (text = after ∧ members = [] ∨
    ∃ others, text = after ++ ascii "," ++ others ∧ Derives strtod others (.members members))

/-- A key and its separator. -/
def KeyText (text key : Bytes) : Prop :=
  ∃ before name after, text = before ++ quoted name ++ after ++ ascii ":" ∧ Blanks before ∧
    StringText name key ∧ Blanks after

/-- What the loop does when it gets a result within some turns: before a value it reads the text of
one, and behind a value it reads what is left of the array or the object that is open. -/
structure Sound (strtod : Bytes → Double) (turns : ℕ) : Prop where
  value : ∀ {bytes frames result}, runLoop strtod turns (enter bytes frames) = some result →
    ∃ before text value rest fewer, fewer < turns ∧ bytes = before ++ text ++ rest ∧
      Blanks before ∧ Derives strtod text (.value value) ∧
      runLoop strtod fewer ⟨.complete value, rest, frames⟩ = some result
  elements : ∀ {value rest before frames result},
    runLoop strtod turns ⟨.complete value, rest, .array before :: frames⟩ = some result →
    ∃ text later values fewer, fewer < turns ∧ rest = text ++ ascii "]" ++ later ∧
      ElementsRest strtod text values ∧
      runLoop strtod fewer ⟨.complete (.array (before ++ value :: values)), later, frames⟩ =
        some result
  members : ∀ {value rest before key frames result},
    runLoop strtod turns ⟨.complete value, rest, .object before key :: frames⟩ = some result →
    ∃ text later members fewer, fewer < turns ∧ rest = text ++ ascii "\x7d" ++ later ∧
      MembersRest strtod text members ∧
      runLoop strtod fewer ⟨.complete (.object (((key, value) :: members).foldl
        (fun object member ↦ insert member.1 member.2 object) before)), later, frames⟩ =
        some result

section Sound

variable {bytes text before front rest key : Bytes} {value : Json} {values : List Json}
  {members : List (Bytes × Json)} {frames : List Frame} {state : State} {turns : ℕ}
  {result : Json × Bytes}

/-- A value with what is left of its array. -/
theorem ElementsRest.cons (hrest : ElementsRest strtod rest values) (hbefore : Blanks before)
    (hvalue : Derives strtod text (.value value)) :
    Derives strtod (before ++ text ++ rest) (.elements (value :: values)) := by
  obtain ⟨after, hafter, ⟨rfl, rfl⟩ | ⟨others, rfl, hothers⟩⟩ := hrest
  · exact .lastElement (.element hbefore hvalue hafter)
  · have helement := Derives.moreElements (.element hbefore hvalue hafter) hothers
    simp only [List.append_assoc] at helement ⊢
    exact helement

/-- A value behind its key, with what is left of its object. -/
theorem MembersRest.cons (hrest : MembersRest strtod rest members) (hkey : KeyText front key)
    (hbefore : Blanks before) (hvalue : Derives strtod text (.value value)) :
    Derives strtod (front ++ (before ++ text ++ rest)) (.members ((key, value) :: members)) := by
  obtain ⟨first, name, second, rfl, hfirst, hname, hsecond⟩ := hkey
  obtain ⟨after, hafter, ⟨rfl, rfl⟩ | ⟨others, rfl, hothers⟩⟩ := hrest
  · exact .lastMember (.member hfirst hname hsecond (.element hbefore hvalue hafter))
  · have hmember := Derives.moreMembers
      (.member hfirst hname hsecond (.element hbefore hvalue hafter)) hothers
    simp only [List.append_assoc] at hmember ⊢
    exact hmember

/-- What is taken for a key is one, with its separator. -/
theorem exists_keyText_of_readKey
    (hread : readKey (scan bytes).1 (scan bytes).2 members frames = .goes state) :
    ∃ front key rest, bytes = front ++ rest ∧ KeyText front key ∧
      state = enter rest (.object members key :: frames) := by
  cases htoken : (scan bytes).1 with
  | valueString key =>
    rw [htoken] at hread
    simp only [readKey] at hread
    split_ifs at hread with hseparator
    obtain rfl := Turn.goes.inj hread
    obtain ⟨before, text, hbytes, hbefore, hlexeme⟩ :=
      exists_lexeme_of_scan (Prod.ext htoken rfl) (by simp) (by simp)
    obtain ⟨after, hafter, hblanks⟩ := exists_blanks_of_scan hseparator rfl
    obtain ⟨name, rfl, hname⟩ := hlexeme.exists_quoted
    refine ⟨before ++ quoted name ++ after ++ ascii ":", key, (scan (scan bytes).2).2, ?_,
      ⟨before, name, after, rfl, hbefore, hname, hblanks⟩, rfl⟩
    rw [List.append_assoc _ after, List.append_assoc _ (after ++ _), ← hafter]
    exact hbytes
  | _ =>
    rw [htoken] at hread
    cases hread

/-- A key does not end the loop with a result. -/
theorem readKey_goes_or_throws (token : Token) (rest : Bytes) (members : List (Bytes × Json))
    (frames : List Frame) :
    (∃ next, readKey token rest members frames = .goes next) ∨
      readKey token rest members frames = .throws := by
  cases token with
  | valueString key =>
    simp only [readKey]
    split_ifs
    · exact .inl ⟨_, rfl⟩
    · exact .inr rfl
  | _ => exact .inr rfl

/-- A result within one more turn is one from where the turn goes. -/
theorem runLoop_succ (hresult : runLoop strtod (turns + 1) state = some result) :
    (∃ value rest, step strtod state = .returns value rest ∧ result = (value, rest)) ∨
      ∃ next, step strtod state = .goes next ∧ runLoop strtod turns next = some result := by
  rw [runLoop] at hresult
  cases hstep : step strtod state with
  | throws => simp [hstep] at hresult
  | returns value rest => simpa [hstep, eq_comm] using hresult
  | goes next => simpa [hstep] using hresult

/-- Behind a value in an array the loop reads what is left of the array. -/
theorem sound_elements (ih : ∀ fewer < turns, Sound strtod fewer) {before : List Json}
    (hresult : runLoop strtod turns ⟨.complete value, rest, .array before :: frames⟩ =
      some result) :
    ∃ text later values fewer, fewer < turns ∧ rest = text ++ ascii "]" ++ later ∧
      ElementsRest strtod text values ∧
      runLoop strtod fewer ⟨.complete (.array (before ++ value :: values)), later, frames⟩ =
        some result := by
  cases turns with
  | zero => cases hresult
  | succ turns =>
    have hstep : step strtod ⟨.complete value, rest, .array before :: frames⟩ =
        evaluate value rest (.array before :: frames) := rfl
    rcases runLoop_succ hresult with ⟨last, others, hreturns, -⟩ | ⟨next, hgoes, hlater⟩
    · rw [hstep] at hreturns
      simp only [evaluate] at hreturns
      split_ifs at hreturns
    · rw [hstep] at hgoes
      simp only [evaluate] at hgoes
      split_ifs at hgoes with hcomma hclosed
      · obtain rfl := Turn.goes.inj hgoes
        obtain ⟨after, hrest, hafter⟩ := exists_blanks_of_scan hcomma rfl
        obtain ⟨blanks, text, second, behind, fewer, hfewer, hbytes, hblanks, hderives, hrun⟩ :=
          (ih turns (Nat.lt_succ_self turns)).value hlater
        obtain ⟨inner, later, values, fewest, hfewest, rfl, helements, hrun⟩ :=
          (ih fewer (hfewer.trans (Nat.lt_succ_self turns))).elements hrun
        refine ⟨after ++ ascii "," ++ (blanks ++ text ++ inner), later, second :: values, fewest,
          by omega, ?_, ⟨after, hafter, .inr ⟨_, rfl, helements.cons hblanks hderives⟩⟩, ?_⟩
        · rw [hrest, hbytes]
          simp only [List.append_assoc]
        · rw [List.append_assoc, List.singleton_append] at hrun
          exact hrun
      · obtain rfl := Turn.goes.inj hgoes
        obtain ⟨after, hrest, hafter⟩ := exists_blanks_of_scan hclosed rfl
        exact ⟨after, _, [], turns, Nat.lt_succ_self turns, hrest,
          ⟨after, hafter, .inl ⟨rfl, rfl⟩⟩, hlater⟩

/-- Behind a value in an object the loop reads what is left of the object. -/
theorem sound_members (ih : ∀ fewer < turns, Sound strtod fewer)
    {before : List (Bytes × Json)}
    (hresult : runLoop strtod turns ⟨.complete value, rest, .object before key :: frames⟩ =
      some result) :
    ∃ text later members fewer, fewer < turns ∧ rest = text ++ ascii "\x7d" ++ later ∧
      MembersRest strtod text members ∧
      runLoop strtod fewer ⟨.complete (.object (((key, value) :: members).foldl
        (fun object member ↦ insert member.1 member.2 object) before)), later, frames⟩ =
        some result := by
  cases turns with
  | zero => cases hresult
  | succ turns =>
    have hstep : step strtod ⟨.complete value, rest, .object before key :: frames⟩ =
        evaluate value rest (.object before key :: frames) := rfl
    rcases runLoop_succ hresult with ⟨last, others, hreturns, -⟩ | ⟨next, hgoes, hlater⟩
    · rw [hstep] at hreturns
      simp only [evaluate] at hreturns
      split_ifs at hreturns with hcomma
      obtain ⟨next, hnext⟩ | hthrows := readKey_goes_or_throws (scan (scan rest).2).1
        (scan (scan rest).2).2 (insert key value before) frames
      · rw [hnext] at hreturns
        cases hreturns
      · rw [hthrows] at hreturns
        cases hreturns
    · rw [hstep] at hgoes
      simp only [evaluate] at hgoes
      split_ifs at hgoes with hcomma hclosed
      · obtain ⟨after, hrest, hafter⟩ := exists_blanks_of_scan hcomma rfl
        obtain ⟨front, name, remaining, hkey, hkeyText, rfl⟩ := exists_keyText_of_readKey hgoes
        obtain ⟨blanks, text, second, behind, fewer, hfewer, hbytes, hblanks, hderives, hrun⟩ :=
          (ih turns (Nat.lt_succ_self turns)).value hlater
        obtain ⟨inner, later, members, fewest, hfewest, rfl, hmembers, hrun⟩ :=
          (ih fewer (hfewer.trans (Nat.lt_succ_self turns))).members hrun
        refine ⟨after ++ ascii "," ++ (front ++ (blanks ++ text ++ inner)), later,
          (name, second) :: members, fewest, by omega, ?_,
          ⟨after, hafter, .inr ⟨_, rfl, hmembers.cons hkeyText hblanks hderives⟩⟩, hrun⟩
        rw [hrest, hkey, hbytes]
        simp only [List.append_assoc]
      · obtain rfl := Turn.goes.inj hgoes
        obtain ⟨after, hrest, hafter⟩ := exists_blanks_of_scan hclosed rfl
        exact ⟨after, _, [], turns, Nat.lt_succ_self turns, hrest,
          ⟨after, hafter, .inl ⟨rfl, rfl⟩⟩, hlater⟩

/-- Behind the token that opens an array the loop reads the array. -/
theorem sound_array (ih : ∀ fewer < turns + 1, Sound strtod fewer)
    (hswitch : switch strtod .beginArray bytes frames = .goes state)
    (hresult : runLoop strtod turns state = some result) :
    ∃ text value rest fewer, fewer < turns + 1 ∧ ascii "[" ++ bytes = text ++ rest ∧
      Derives strtod text (.value value) ∧
      runLoop strtod fewer ⟨.complete value, rest, frames⟩ = some result := by
  simp only [switch] at hswitch
  split_ifs at hswitch with hclosed
  · obtain rfl := Turn.goes.inj hswitch
    obtain ⟨blanks, hbytes, hblanks⟩ := exists_blanks_of_scan hclosed rfl
    refine ⟨_, _, _, turns, Nat.lt_succ_self turns, ?_, .emptyArray hblanks, hresult⟩
    rw [List.append_assoc, List.append_assoc, ← List.append_assoc blanks, ← hbytes]
  · obtain rfl := Turn.goes.inj hswitch
    obtain ⟨blanks, text, first, behind, fewer, hfewer, rfl, hblanks, hderives, hrun⟩ :=
      (ih turns (Nat.lt_succ_self turns)).value hresult
    obtain ⟨inner, later, values, fewest, hfewest, rfl, helements, hrun⟩ :=
      (ih fewer (hfewer.trans (Nat.lt_succ_self turns))).elements hrun
    refine ⟨_, _, later, fewest, by omega, ?_,
      .array (helements.cons hblanks hderives), hrun⟩
    simp only [List.append_assoc]

/-- Behind the token that opens an object the loop reads the object. -/
theorem sound_object (ih : ∀ fewer < turns + 1, Sound strtod fewer)
    (hswitch : switch strtod .beginObject bytes frames = .goes state)
    (hresult : runLoop strtod turns state = some result) :
    ∃ text value rest fewer, fewer < turns + 1 ∧ ascii "\x7b" ++ bytes = text ++ rest ∧
      Derives strtod text (.value value) ∧
      runLoop strtod fewer ⟨.complete value, rest, frames⟩ = some result := by
  simp only [switch] at hswitch
  split_ifs at hswitch with hclosed
  · obtain rfl := Turn.goes.inj hswitch
    obtain ⟨blanks, hbytes, hblanks⟩ := exists_blanks_of_scan hclosed rfl
    refine ⟨_, _, _, turns, Nat.lt_succ_self turns, ?_, .emptyObject hblanks, hresult⟩
    rw [List.append_assoc, List.append_assoc, ← List.append_assoc blanks, ← hbytes]
  · obtain ⟨front, key, rest, rfl, hkey, rfl⟩ := exists_keyText_of_readKey hswitch
    obtain ⟨blanks, text, first, behind, fewer, hfewer, rfl, hblanks, hderives, hrun⟩ :=
      (ih turns (Nat.lt_succ_self turns)).value hresult
    obtain ⟨inner, later, members, fewest, hfewest, rfl, hmembers, hrun⟩ :=
      (ih fewer (hfewer.trans (Nat.lt_succ_self turns))).members hrun
    refine ⟨_, _, later, fewest, by omega, ?_,
      .object (hmembers.cons hkey hblanks hderives), hrun⟩
    simp only [List.append_assoc]

/-- The switch of the loop does not end it with a result. -/
theorem switch_ne_returns (token : Token) (rest : Bytes) (frames : List Frame) (value : Json)
    (others : Bytes) : switch strtod token rest frames ≠ .returns value others := by
  intro hreturns
  cases token with
  | beginObject =>
    simp only [switch] at hreturns
    split_ifs at hreturns
    rcases readKey_goes_or_throws (scan rest).1 (scan rest).2 [] frames with ⟨next, hnext⟩ | hthrows
    · rw [hnext] at hreturns
      cases hreturns
    · rw [hthrows] at hreturns
      cases hreturns
  | beginArray | valueNumber =>
    simp only [switch] at hreturns
    split_ifs at hreturns
  | _ => cases hreturns

/-- Before a value the loop reads the text of one. -/
theorem sound_value (ih : ∀ fewer < turns, Sound strtod fewer)
    (hresult : runLoop strtod turns (enter bytes frames) = some result) :
    ∃ before text value rest fewer, fewer < turns ∧ bytes = before ++ text ++ rest ∧
      Blanks before ∧ Derives strtod text (.value value) ∧
      runLoop strtod fewer ⟨.complete value, rest, frames⟩ = some result := by
  cases turns with
  | zero => cases hresult
  | succ turns =>
    have hless : turns < turns + 1 := Nat.lt_succ_self turns
    have hstep : step strtod (enter bytes frames) =
        switch strtod (scan bytes).1 (scan bytes).2 frames := rfl
    rcases runLoop_succ hresult with ⟨last, others, hreturns, -⟩ | ⟨next, hgoes, hlater⟩
    · exact absurd (hstep.symm.trans hreturns) (switch_ne_returns _ _ _ _ _)
    rw [hstep] at hgoes
    cases htoken : (scan bytes).1 with
    | literalTrue =>
      obtain ⟨before, hbytes, hbefore⟩ := exists_blanks_of_scan htoken rfl
      rw [htoken] at hgoes
      obtain rfl := Turn.goes.inj hgoes
      exact ⟨before, _, _, _, turns, hless, hbytes, hbefore, .literalTrue, hlater⟩
    | literalFalse =>
      obtain ⟨before, hbytes, hbefore⟩ := exists_blanks_of_scan htoken rfl
      rw [htoken] at hgoes
      obtain rfl := Turn.goes.inj hgoes
      exact ⟨before, _, _, _, turns, hless, hbytes, hbefore, .literalFalse, hlater⟩
    | literalNull =>
      obtain ⟨before, hbytes, hbefore⟩ := exists_blanks_of_scan htoken rfl
      rw [htoken] at hgoes
      obtain rfl := Turn.goes.inj hgoes
      exact ⟨before, _, _, _, turns, hless, hbytes, hbefore, .null, hlater⟩
    | valueString string =>
      obtain ⟨before, text, hbytes, hbefore, hlexeme⟩ :=
        exists_lexeme_of_scan (Prod.ext htoken rfl) (by simp) (by simp)
      obtain ⟨inner, rfl, hinner⟩ := hlexeme.exists_quoted
      rw [htoken] at hgoes
      obtain rfl := Turn.goes.inj hgoes
      exact ⟨before, _, _, _, turns, hless, hbytes, hbefore, .text hinner, hlater⟩
    | valueNumber type number =>
      obtain ⟨before, text, hbytes, hbefore, hlexeme⟩ :=
        exists_lexeme_of_scan (Prod.ext htoken rfl) (by simp) (by simp)
      obtain ⟨rfl, hshape, rfl⟩ := hlexeme.numberText
      rw [htoken] at hgoes
      simp only [switch] at hgoes
      split_ifs at hgoes with hfinite
      obtain rfl := Turn.goes.inj hgoes
      exact ⟨before, _, _, _, turns, hless, hbytes, hbefore, .number hshape hfinite, hlater⟩
    | beginArray =>
      obtain ⟨before, hbytes, hbefore⟩ := exists_blanks_of_scan htoken rfl
      rw [htoken] at hgoes
      obtain ⟨text, value, rest, fewer, hfewer, hsplit, hderives, hrun⟩ :=
        sound_array ih hgoes hlater
      refine ⟨before, text, value, rest, fewer, hfewer, ?_, hbefore, hderives, hrun⟩
      rw [hbytes, List.append_assoc, hsplit, List.append_assoc]
    | beginObject =>
      obtain ⟨before, hbytes, hbefore⟩ := exists_blanks_of_scan htoken rfl
      rw [htoken] at hgoes
      obtain ⟨text, value, rest, fewer, hfewer, hsplit, hderives, hrun⟩ :=
        sound_object ih hgoes hlater
      refine ⟨before, text, value, rest, fewer, hfewer, ?_, hbefore, hderives, hrun⟩
      rw [hbytes, List.append_assoc, hsplit, List.append_assoc]
    | endArray | endObject | nameSeparator | valueSeparator | parseError | endOfInput =>
      rw [htoken] at hgoes
      cases hgoes

/-- Whatever the loop accepts is a text of the grammar. -/
theorem sound (turns : ℕ) : Sound strtod turns := by
  induction turns using Nat.strongRecOn with
  | ind turns ih => exact ⟨sound_value ih, sound_elements ih, sound_members ih⟩

end Sound

/-! ### Whole inputs -/

/-- `sax_parse_internal` reads the text of a value behind blanks, and returns this value with what
is behind the text. -/
theorem saxParse_eq_some {bytes rest : Bytes} {value : Json}
    (hparse : saxParse strtod bytes = some (value, rest)) :
    ∃ before text, bytes = before ++ text ++ rest ∧ Blanks before ∧
      Derives strtod text (.value value) := by
  obtain ⟨before, text, first, behind, fewer, -, hbytes, hbefore, hderives, hrun⟩ :=
    (sound _).value hparse
  cases fewer with
  | zero => cases hrun
  | succ fewer =>
    obtain ⟨rfl, rfl⟩ := Prod.mk.inj (Option.some.inj hrun)
    exact ⟨before, text, hbytes, hbefore, hderives⟩

/-- `sax_parse_internal` reads the text of a value, with anything behind it that does not continue a
number. -/
theorem saxParse_of_derives {before text rest : Bytes} {value : Json} (hbefore : Blanks before)
    (hderives : Derives strtod text (.value value)) (hends : Ends value rest) :
    saxParse strtod (before ++ text ++ rest) = some (value, rest) := by
  have hleads : Leads strtod (enter (before ++ text ++ rest) []) ⟨.complete value, rest, []⟩ := by
    rw [List.append_assoc, enter_blanks hbefore]
    exact hderives.runs rest [] hends
  have hreturns : runLoop strtod 1 ⟨.complete value, rest, []⟩ = some (value, rest) := rfl
  obtain ⟨turns, hturns⟩ := exists_runLoop_of_leads hleads hreturns
  exact runLoop_bound hturns

/-- The byte order mark of UTF-8. -/
def byteOrderMark : Bytes :=
  [0xEF, 0xBB, 0xBF]

/-- A JSON text between blanks, behind a byte order mark or none, and before the end of the input or
a byte zero. -/
def IsText (strtod : Bytes → Double) (bytes : Bytes) (value : Json) : Prop :=
  ∃ mark before text after tail, bytes = mark ++ (before ++ text ++ (after ++ tail)) ∧
    (mark = [] ∨ mark = byteOrderMark) ∧ Blanks before ∧ Derives strtod text (.value value) ∧
    Blanks after ∧ EndsInput tail

/-- The text of a value begins with a byte of ASCII that is not blank, and that tells the numbers
from the other values. -/
theorem Derives.exists_head {text : Bytes} {value : Json}
    (hderives : Derives strtod text (.value value)) :
    ∃ first later, text = first :: later ∧ first.toNat ≤ 0x7F ∧ isBlank first = false ∧
      ((∃ number, value = .number number) ↔ first.toNat = 0x2D ∨ isDigit first = true) := by
  generalize hitem : Item.value value = item at hderives
  cases hderives with
  | null | literalTrue | literalFalse | text | emptyArray | array | emptyObject | object =>
    obtain rfl := Item.value.inj hitem
    refine ⟨_, _, rfl, by decide, by decide, iff_of_false ?_ (by decide)⟩
    rintro ⟨number, hnumber⟩
    cases hnumber
  | number shape =>
    obtain rfl := Item.value.inj hitem
    obtain ⟨first, later, rfl, hblank⟩ := (Lexeme.number shape).cons
    have hlead := lead_of_numberText shape
    refine ⟨first, later, rfl, ?_, hblank, iff_of_true ⟨_, rfl⟩ hlead⟩
    simp only [isDigit, decide_eq_true_eq] at hlead
    omega
  | element | lastElement | moreElements | member | lastMember | moreMembers => cases hitem

/-- A text without a mark does not begin like one. -/
theorem skipBom_of_derives {before text rest : Bytes} {value : Json} (hbefore : Blanks before)
    (hderives : Derives strtod text (.value value)) :
    skipBom (before ++ text ++ rest) = some (before ++ text ++ rest) := by
  have hhead : (before ++ text ++ rest).head? ≠ some 0xEF := by
    cases before with
    | nil =>
      obtain ⟨first, later, rfl, hfirst, -⟩ := hderives.exists_head
      intro hmark
      obtain rfl : first = 0xEF := Option.some.inj hmark
      exact absurd hfirst (by decide)
    | cons first later =>
      intro hmark
      obtain rfl : first = 0xEF := Option.some.inj hmark
      exact absurd (hbefore 0xEF List.mem_cons_self) (by decide)
  rw [skipBom, if_neg hhead]

/-- What is left behind the mark. -/
theorem exists_mark_of_skipBom {bytes rest : Bytes} (hskip : skipBom bytes = some rest) :
    ∃ mark, bytes = mark ++ rest ∧ (mark = [] ∨ mark = byteOrderMark) := by
  rw [skipBom] at hskip
  split_ifs at hskip with hhead hbegins
  · obtain ⟨later, rfl⟩ := List.isPrefixOf_iff_prefix.mp hbegins
    obtain rfl := Option.some.inj hskip
    exact ⟨byteOrderMark, rfl, .inr rfl⟩
  · obtain rfl := Option.some.inj hskip
    exact ⟨[], rfl, .inl rfl⟩

/-- What `json::parse` accepts is a JSON text for the value. -/
theorem isText_of_parse {bytes : Bytes} {value : Json}
    (hparse : parse strtod bytes = some value) : IsText strtod bytes value := by
  simp only [parse, Option.bind_eq_bind, Option.bind_eq_some_iff] at hparse
  obtain ⟨unmarked, hskip, ⟨parsed, rest⟩, hparsed, hend⟩ := hparse
  dsimp only at hend
  split_ifs at hend with hended
  obtain rfl := Option.some.inj hend
  obtain ⟨mark, rfl, hmark⟩ := exists_mark_of_skipBom hskip
  obtain ⟨before, text, rfl, hbefore, hderives⟩ := saxParse_eq_some hparsed
  obtain ⟨after, tail, rfl, hafter, htail⟩ := scan_eq_endOfInput_iff.mp hended
  exact ⟨mark, before, text, after, tail, rfl, hmark, hbefore, hderives, hafter, htail⟩

/-- `json::parse` accepts a JSON text for its value. -/
theorem parse_of_isText {bytes : Bytes} {value : Json} (htext : IsText strtod bytes value) :
    parse strtod bytes = some value := by
  obtain ⟨mark, before, text, after, tail, rfl, hmark, hbefore, hderives, hafter, htail⟩ := htext
  have hzero : EndsNumber tail := by
    intro byte hbyte
    rw [htail byte hbyte]
    decide
  have hskip : skipBom (mark ++ (before ++ text ++ (after ++ tail))) =
      some (before ++ text ++ (after ++ tail)) := by
    rcases hmark with rfl | rfl
    · exact skipBom_of_derives hbefore hderives
    · rfl
  have hends : Ends value (after ++ tail) := fun _ _ ↦ endsNumber_append hafter hzero
  have hparsed := saxParse_of_derives hbefore hderives hends
  have hended := scan_eq_endOfInput_iff.mpr ⟨after, tail, rfl, hafter, htail⟩
  simp only [parse, Option.bind_eq_bind, Option.bind_eq_some_iff]
  exact ⟨_, hskip, _, hparsed, if_pos hended⟩

/-- `json::parse` accepts exactly the JSON texts, each for its value, and so each for one value
only. -/
theorem parse_eq_some_iff (bytes : Bytes) (value : Json) :
    parse strtod bytes = some value ↔ IsText strtod bytes value :=
  ⟨isText_of_parse, parse_of_isText⟩

end KoboldKhat.Parser
