import KoboldKhat.Server.Concurrent
import Mathlib.Data.List.Nodup

/-!
# Lines

A line of the server is one text with the writes that send it. `InLines` says that writes, in the
order in which they began, are in the order of lines: the writes of one call of a function follow
each other, send one text, and go to different sessions. Such writes are the writes of a sequence of
lines (`InLines.exists_lines`), and what they sent to a session is what the lines addressed to it
sent, one after the other (`sentTo_lines`).
-/

set_option autoImplicit false
set_option relaxedAutoImplicit false

namespace KoboldKhat.Server

variable {ι : Type}

/-- What holds of the elements of a list and of one more holds of them together. -/
theorem forall_mem_concat {α : Type} {holds : α → Prop} {list : List α} {last : α}
    (hlist : ∀ value ∈ list, holds value) (hlast : holds last) :
    ∀ value ∈ list ++ [last], holds value :=
  List.forall_mem_append.mpr ⟨hlist, List.forall_mem_singleton.mpr hlast⟩

/-- The call of a function of the server that a write belongs to. -/
def Write.source (write : Write ι) : ι × ℕ :=
  (write.thread, write.call)

/-- What was sent is a beginning of the text, and the whole of it if the write returned. -/
structure Write.Faithful (write : Write ι) : Prop where
  beginning : write.sent <+: write.text
  whole : write.status = .returned → write.sent = write.text

/-- The bytes that writes sent to a session, one write after the other. -/
def sentTo (client : SessionId) (writes : List (Write ι)) : Bytes :=
  (writes.filter fun write ↦ write.client = client).flatMap Write.sent

theorem sentTo_concat (client : SessionId) (writes : List (Write ι)) (write : Write ι) :
    sentTo client (writes ++ [write]) =
      sentTo client writes ++ if write.client = client then write.sent else [] := by
  unfold sentTo
  rw [List.filter_append, List.flatMap_append]
  split_ifs with hclient <;> simp [hclient]

/-- A line of the server: the text that one call of a function sends, and the writes that send
it. -/
structure Line (ι : Type) where
  /-- The call that sends the line. -/
  source : ι × ℕ
  /-- The text of the line. -/
  text : Bytes
  /-- The writes of the text, in their order. -/
  writes : List (Write ι)

/-- The line is addressed to the session. -/
def Line.AddressedTo (line : Line ι) (client : SessionId) : Prop :=
  client ∈ line.writes.map Write.client

instance (line : Line ι) (client : SessionId) : Decidable (line.AddressedTo client) :=
  inferInstanceAs (Decidable (client ∈ line.writes.map Write.client))

/-- What lines sent to a session is what those addressed to it sent. -/
theorem sentTo_lines (client : SessionId) (lines : List (Line ι)) :
    sentTo client (lines.flatMap Line.writes) =
      (lines.filter fun line ↦ line.AddressedTo client).flatMap
        fun line ↦ sentTo client line.writes := by
  induction lines with
  | nil => rfl
  | cons line rest ih =>
    rw [List.flatMap_cons, List.filter_cons]
    have hsplit : sentTo client (line.writes ++ rest.flatMap Line.writes) =
        sentTo client line.writes ++ sentTo client (rest.flatMap Line.writes) := by
      rw [sentTo, List.filter_append, List.flatMap_append]
      rfl
    rw [hsplit, ih]
    split_ifs with haddressed
    · rfl
    · have hnone : line.writes.filter (fun write ↦ write.client = client) = [] := by
        rw [List.filter_eq_nil_iff]
        intro write hwrite hsame
        have hclient : write.client = client := of_decide_eq_true hsame
        exact haddressed (decide_eq_true (List.mem_map.mpr ⟨write, hwrite, hclient⟩))
      rw [sentTo, hnone]
      rfl

/-- What a function gives for two elements of a list stands in their order in what it gives for the
list. -/
theorem flatMap_of_sublist {α β : Type} {first second : α} {list : List α}
    (hsublist : [first, second].Sublist list) (function : α → List β) : ∃ start middle rest,
      list.flatMap function = start ++ function first ++ middle ++ function second ++ rest := by
  obtain ⟨before, after, rfl, hfirst, hsecond⟩ := List.cons_sublist_iff.mp hsublist
  obtain ⟨start, middle, rfl⟩ := List.append_of_mem hfirst
  obtain ⟨between, rest, rfl⟩ := List.append_of_mem (List.singleton_sublist.mp hsecond)
  refine ⟨start.flatMap function, (middle ++ between).flatMap function, rest.flatMap function, ?_⟩
  simp [List.flatMap_append, List.flatMap_cons]

/-- The writes of a line are of its call, send its text, whole or a beginning of it, and go to
different sessions. -/
structure Line.WellFormed (line : Line ι) : Prop where
  nonempty : line.writes ≠ []
  source : ∀ write ∈ line.writes, write.source = line.source
  text : ∀ write ∈ line.writes, write.text = line.text
  sessions : (line.writes.map Write.client).Nodup

/-- Writes in the order of the server: a call's writes follow each other, send one text, and go to
different sessions. -/
inductive InLines : List (Write ι) → Prop
  | nil : InLines []
  | first {writes : List (Write ι)} {write : Write ι} (before : InLines writes)
      (new : ∀ other ∈ writes, other.source ≠ write.source) : InLines (writes ++ [write])
  | next {writes : List (Write ι)} {last write : Write ι} (before : InLines (writes ++ [last]))
      (source : last.source = write.source) (text : last.text = write.text)
      (session : ∀ other ∈ writes ++ [last], other.source = write.source →
        other.client ≠ write.client) :
      InLines (writes ++ [last] ++ [write])

/-- Another write of the same text by the same call to the same session may stand in the place of
the last one. -/
theorem InLines.replace {writes : List (Write ι)} {last write : Write ι}
    (hlines : InLines (writes ++ [last])) (hsource : write.source = last.source)
    (htext : write.text = last.text) (hclient : write.client = last.client) :
    InLines (writes ++ [write]) := by
  generalize hall : writes ++ [last] = all at hlines
  cases hlines with
  | nil => simp at hall
  | first before new =>
    obtain ⟨rfl, hlast⟩ := List.append_inj' hall rfl
    obtain rfl : last = _ := List.singleton_inj.mp hlast
    exact .first before (hsource ▸ new)
  | next before source text session =>
    obtain ⟨rfl, hlast⟩ := List.append_inj' hall rfl
    obtain rfl : last = _ := List.singleton_inj.mp hlast
    exact .next before (source.trans hsource.symm) (text.trans htext.symm)
      (hsource ▸ hclient ▸ session)

/-- A line goes on with another write of its text, by its call and to another session. -/
theorem Line.WellFormed.extend {line : Line ι} (hwell : line.WellFormed) {write : Write ι}
    (hsource : write.source = line.source) (htext : write.text = line.text)
    (hsession : ∀ other ∈ line.writes, other.client ≠ write.client) :
    Line.WellFormed { line with writes := line.writes ++ [write] } where
  nonempty := by simp
  source := forall_mem_concat hwell.source hsource
  text := forall_mem_concat hwell.text htext
  sessions := by
    rw [List.map_append, List.map_singleton, ← List.concat_eq_append]
    refine List.Nodup.concat (fun hmember ↦ ?_) hwell.sessions
    obtain ⟨other, hother, hclient⟩ := List.mem_map.mp hmember
    exact hsession other hother hclient

/-- Writes in order are the writes of a sequence of lines, each of a call of its own. -/
theorem InLines.exists_lines {writes : List (Write ι)} (hlines : InLines writes) :
    ∃ lines : List (Line ι), lines.flatMap Line.writes = writes ∧
      (lines.map Line.source).Nodup ∧ ∀ line ∈ lines, line.WellFormed := by
  induction hlines with
  | nil => exact ⟨[], rfl, List.nodup_nil, nofun⟩
  | @first writes write before new ih =>
    obtain ⟨lines, hwrites, hsources, hwell⟩ := ih
    refine ⟨lines ++ [⟨write.source, write.text, [write]⟩], ?_, ?_, ?_⟩
    · rw [List.flatMap_append, hwrites, List.flatMap_singleton]
    · rw [List.map_append, List.map_singleton, ← List.concat_eq_append]
      refine List.Nodup.concat (fun hmember ↦ ?_) hsources
      obtain ⟨line, hline, hsource⟩ := List.mem_map.mp hmember
      obtain ⟨other, hother⟩ := List.exists_mem_of_ne_nil _ (hwell line hline).nonempty
      refine new other (hwrites ▸ List.mem_flatMap.mpr ⟨line, hline, hother⟩) ?_
      exact ((hwell line hline).source other hother).trans hsource
    · exact forall_mem_concat hwell ⟨by simp, by simp, by simp, by simp⟩
  | @next writes last write before source text session ih =>
    obtain ⟨lines, hwrites, hsources, hwell⟩ := ih
    obtain rfl | ⟨init, line, rfl⟩ := List.eq_nil_or_concat' lines
    · simp at hwrites
    rw [List.flatMap_append, List.flatMap_singleton] at hwrites
    have hline : line.WellFormed := hwell line List.mem_concat_self
    have hlast : last ∈ line.writes := by
      obtain hnone | ⟨earlier, other, hother⟩ := List.eq_nil_or_concat' line.writes
      · exact absurd hnone hline.nonempty
      · rw [hother, ← List.append_assoc] at hwrites
        have hsame := List.singleton_inj.mp (List.append_inj' hwrites rfl).2
        rw [hother, hsame]
        exact List.mem_concat_self
    have hsource : write.source = line.source := source.symm.trans (hline.source last hlast)
    have htext : write.text = line.text := text.symm.trans (hline.text last hlast)
    refine ⟨init ++ [{ line with writes := line.writes ++ [write] }], ?_, ?_, ?_⟩
    · rw [List.flatMap_append, List.flatMap_singleton, ← List.append_assoc, hwrites]
    · rwa [List.map_append] at hsources ⊢
    · refine forall_mem_concat (fun other hother ↦ hwell other (List.mem_append_left _ hother)) ?_
      refine hline.extend hsource htext fun earlier hearlier ↦ session earlier ?_ ?_
      · rw [← hwrites]
        exact List.mem_append_right _ hearlier
      · exact (hline.source earlier hearlier).trans hsource.symm

end KoboldKhat.Server
