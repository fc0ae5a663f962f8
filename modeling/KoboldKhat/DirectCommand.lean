import KoboldKhat.Messages
import Mathlib.Data.List.TakeWhile

/-!
# The `/dm` command reader

`handleMessage` reads a direct message from a stream: two words, the rest of the line, and one
leading blank removed. Whatever the message is, the recipient holds no whitespace, the text holds no
line feed, and there is no text without a recipient, because the stream has failed when a word is
missing (`DirectCommand.read`). Such a pair is written as `/dm`, recipient and text, and is read
back from that as it was (`DirectCommand.parse_render`). Reading is therefore a normalisation
(`parseDirectMessage_normalises`).
-/

set_option autoImplicit false
set_option relaxedAutoImplicit false

namespace KoboldKhat

/-! ### What the stream gives -/

namespace InputStream

/-- An extracted word holds no whitespace. -/
theorem isSpace_of_mem_extract (stream : InputStream) {byte : UInt8}
    (hbyte : byte ∈ (stream.extract []).1) : isSpace byte = false := by
  unfold extract at hbyte
  by_cases hgood : stream.good = true
  · rw [if_pos hgood] at hbyte
    dsimp only at hbyte
    split_ifs at hbyte
    · exact absurd hbyte List.not_mem_nil
    · simpa using List.mem_takeWhile_imp hbyte
  · rw [if_neg hgood] at hbyte
    exact absurd hbyte List.not_mem_nil

/-- After an extraction without a word the stream is not good. -/
theorem good_of_extract_eq_nil (stream : InputStream) (hword : (stream.extract []).1 = []) :
    (stream.extract []).2.good = false := by
  unfold extract at hword ⊢
  by_cases hgood : stream.good = true
  · rw [if_pos hgood] at hword ⊢
    cases hrest : stream.rest.dropWhile isSpace with
    | nil => simp [good]
    | cons first others =>
      have hfirst : isSpace first = false := by
        have hhead := List.head_dropWhile_not isSpace (hrest ▸ List.cons_ne_nil first others)
        simpa [hrest] using hhead
      simp [hrest, hfirst] at hword
  · rw [if_neg hgood]
    exact Bool.and_eq_false_imp.mpr fun _ ↦ rfl

/-- A line holds no line feed. -/
theorem lineFeed_notMem_getLine (stream : InputStream) : 10 ∉ (stream.getLine []).1 := by
  intro hfeed
  unfold getLine at hfeed
  split_ifs at hfeed
  · have hother := List.mem_takeWhile_imp hfeed
    simp at hother
  · exact absurd hfeed List.not_mem_nil

/-- No line is read from a stream that is not good. -/
theorem getLine_of_not_good {stream : InputStream} (hgood : stream.good = false)
    (target : Bytes) : (stream.getLine target).1 = target := by
  unfold getLine
  rw [hgood]
  rfl

end InputStream

/-! ### The words of a direct message -/

/-- A word holds no whitespace. -/
theorem isSpace_of_mem_recipientWord {message : Bytes} :
    ∀ byte ∈ recipientWord message, isSpace byte = false := by
  intro byte hbyte
  have hword := List.mem_takeWhile_imp hbyte
  simpa using hword

/-- A direct message: `/dm`, the recipient and the text, with one blank between them. -/
def renderDirectMessage (recipient text : Bytes) : Bytes :=
  dmCommand ++ recipient ++ 32 :: text

/-- The command reader takes a name without whitespace for the recipient, and the rest of its line,
without the blank in front, for the text. -/
theorem parseDirectMessage_of_word {name : Bytes} (hname : name ≠ [])
    (hspaces : ∀ byte ∈ name, isSpace byte = false) (text : Bytes) :
    parseDirectMessage (renderDirectMessage name text) =
      (name, text.takeWhile fun byte ↦ byte != 10) := by
  have hall : name.all (fun byte ↦ !isSpace byte) = true := by
    rw [List.all_eq_true]
    intro byte hbyte
    rw [hspaces byte hbyte]
    rfl
  have hcommand : ({ rest := renderDirectMessage name text } : InputStream).extract [] =
      (ascii "/dm", { rest := 32 :: (name ++ 32 :: text) }) := by
    have hrest : renderDirectMessage name text = ascii "/dm" ++ 32 :: (name ++ 32 :: text) := by
      rw [renderDirectMessage, List.append_assoc]
      rfl
    rw [hrest]
    exact extract_word (ascii "/dm") _ [] (by decide) (by decide) (by decide)
  have hskip : ({ rest := 32 :: (name ++ 32 :: text) } : InputStream).extract [] =
      ({ rest := name ++ 32 :: text } : InputStream).extract [] := by
    simp only [InputStream.extract, InputStream.good]
    rw [List.dropWhile_cons_of_pos (by decide)]
    rfl
  have hword : ({ rest := name ++ 32 :: text } : InputStream).extract [] =
      (name, { rest := 32 :: text }) :=
    extract_word name text [] hname hall (by decide)
  rw [parseDirectMessage]
  simp only [hcommand, hskip, hword, InputStream.getLine, InputStream.good]
  rw [List.takeWhile_cons_of_pos (by decide)]
  rfl

/-- A text is cut at its first line feed, so it is kept when it has none. -/
theorem takeWhile_eq_self_iff_notMem {text : Bytes} :
    text.takeWhile (fun byte ↦ byte != 10) = text ↔ 10 ∉ text := by
  rw [List.takeWhile_eq_self_iff]
  simp only [bne_iff_ne, ne_eq]
  exact ⟨fun hall hfeed ↦ hall 10 hfeed rfl, fun hnone byte hbyte hfeed ↦ hnone (hfeed ▸ hbyte)⟩

/-- The recipient is the word after the command. -/
theorem parseDirectMessage_recipient (message : Bytes) :
    (parseDirectMessage message).1 =
      ((({ rest := message } : InputStream).extract []).2.extract []).1 :=
  rfl

/-- The text is the rest of the line after the recipient, without a leading blank. -/
theorem parseDirectMessage_text (message : Bytes) :
    ∃ line, line =
        (((({ rest := message } : InputStream).extract []).2.extract []).2.getLine []).1 ∧
      (parseDirectMessage message).2 = if line.head? = some 32 then line.tail else line :=
  ⟨_, rfl, rfl⟩

/-! ### The normal form -/

/-- What the command reader can give: a recipient and a text. -/
structure DirectCommand where
  /-- The session the message is for. -/
  recipient : Bytes
  /-- What it says. -/
  text : Bytes
  /-- The recipient is one word. -/
  word : ∀ byte ∈ recipient, isSpace byte = false
  /-- The text is one line. -/
  line : 10 ∉ text
  /-- There is no text without a recipient. -/
  bare : recipient = [] → text = []

namespace DirectCommand

/-- What the command reader gives for any message. -/
def read (message : Bytes) : DirectCommand where
  recipient := (parseDirectMessage message).1
  text := (parseDirectMessage message).2
  word := fun _ hbyte ↦ InputStream.isSpace_of_mem_extract _ hbyte
  line := by
    obtain ⟨line, hline, htext⟩ := parseDirectMessage_text message
    have hfeed : 10 ∉ line := hline ▸ InputStream.lineFeed_notMem_getLine _
    rw [htext]
    split_ifs
    · exact fun hmember ↦ hfeed (List.mem_of_mem_tail hmember)
    · exact hfeed
  bare := by
    intro hrecipient
    rw [parseDirectMessage_recipient] at hrecipient
    obtain ⟨line, hline, htext⟩ := parseDirectMessage_text message
    have hfailed := InputStream.good_of_extract_eq_nil _ hrecipient
    have hnone : line = [] := hline.trans (InputStream.getLine_of_not_good hfailed [])
    rw [htext, hnone]
    rfl

/-- The command reader reads a command back from its message. -/
theorem parse_render (command : DirectCommand) :
    parseDirectMessage (renderDirectMessage command.recipient command.text) =
      (command.recipient, command.text) := by
  by_cases hrecipient : command.recipient = []
  · rw [hrecipient, command.bare hrecipient]
    decide
  · rw [parseDirectMessage_of_word hrecipient command.word,
      takeWhile_eq_self_iff_notMem.mpr command.line]

end DirectCommand

/-- A recipient that is a word, with a text that is a line, is read back from its message. Every
message is read as a recipient without whitespace and a text without line feeds, and reading the
message of the two changes neither. -/
theorem parseDirectMessage_normalises :
    (∀ recipient text : Bytes, recipient ≠ [] → (∀ byte ∈ recipient, isSpace byte = false) →
      10 ∉ text → parseDirectMessage (renderDirectMessage recipient text) = (recipient, text)) ∧
    ∀ message : Bytes, dmCommand.isPrefixOf message = true →
      ∃ recipient text, parseDirectMessage message = (recipient, text) ∧
        (∀ byte ∈ recipient, isSpace byte = false) ∧ 10 ∉ text ∧
          parseDirectMessage (renderDirectMessage recipient text) = (recipient, text) := by
  constructor
  · intro recipient text hrecipient hword hline
    exact DirectCommand.parse_render
      { recipient, text, word := hword, line := hline, bare := fun hnone ↦ absurd hnone hrecipient }
  · intro message _
    let command := DirectCommand.read message
    exact ⟨command.recipient, command.text, rfl, command.word, command.line, command.parse_render⟩

/-- A direct message is read back, and one with blanks to spare is brought into its normal form. -/
theorem parseDirectMessage_normalises_of_goblin :
    parseDirectMessage (renderDirectMessage (ascii "goblin") (ascii "see you")) =
        (ascii "goblin", ascii "see you") ∧
      ∃ recipient text, parseDirectMessage (ascii "/dm \n goblin see you") = (recipient, text) ∧
        parseDirectMessage (renderDirectMessage recipient text) = (recipient, text) := by
  have hall : (ascii "goblin").all (fun byte ↦ !isSpace byte) = true := by decide
  obtain ⟨recipient, text, hparsed, -, -, hback⟩ :=
    parseDirectMessage_normalises.2 (ascii "/dm \n goblin see you") (by decide)
  exact ⟨parseDirectMessage_normalises.1 _ _ (by decide) (by simpa using hall) (by decide),
    recipient, text, hparsed, hback⟩

end KoboldKhat
