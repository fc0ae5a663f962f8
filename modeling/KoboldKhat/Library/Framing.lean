import Mathlib.Data.List.Basic

/-!
# Streams cut into chunks

A sender puts documents one after the other into a stream. The stream reaches the receiver in
chunks, cut anywhere, and the receiver turns every chunk on its own into a list of results.
`Delimited` says that it turns each document into its result, and every other chunk that could stand
in its place into something else. Then the receiver gets the results of the documents exactly when
the chunks are the documents (`Delimited.eq_iff`), and so far as the chunks go, the results of the
first documents exactly when the chunks are the first documents (`Delimited.chunks_iff`).

`Apart` says only that such another chunk is rejected. Then the receiver gets first documents, and
after them, if anything, a chunk that it rejects (`Apart.split`).
-/

set_option autoImplicit false
set_option relaxedAutoImplicit false

namespace KoboldKhat.Library

variable {α β : Type}

/-- The receiver turns each document into its result, and a chunk that begins where a document
begins, but does not end where it ends, into another one. -/
inductive Delimited (handle : List α → List β) : List (List α) → List β → Prop
  | nil : Delimited handle [] []
  | cons {document : List α} {result : β} {documents : List (List α)} {results : List β}
      (whole : handle document = [result])
      (reject : ∀ chunk, chunk ≠ [] → chunk ≠ document →
        chunk <+: document ++ documents.flatten → ∃ other, other ≠ result ∧ handle chunk = [other])
      (rest : Delimited handle documents results) :
      Delimited handle (document :: documents) (result :: results)

namespace Delimited

variable {handle : List α → List β} {documents chunks : List (List α)} {results : List β}

/-- The receiver turns the documents into their results. -/
theorem flatMap_documents (hdelimited : Delimited handle documents results) :
    documents.flatMap handle = results := by
  induction hdelimited with
  | nil => rfl
  | cons whole reject rest ih => rw [List.flatMap_cons, whole, ih, List.singleton_append]

/-- The receiver turns a document into one result. -/
theorem exists_result (hdelimited : Delimited handle documents results) {document : List α}
    (hdocument : document ∈ documents) : ∃ result, handle document = [result] := by
  induction hdelimited with
  | nil => cases hdocument
  | cons whole reject rest ih =>
    rcases List.mem_cons.mp hdocument with rfl | hlater
    · exact ⟨_, whole⟩
    · exact ih hlater

/-- Chunks of the beginning of the stream give the first results exactly when they are the first
documents. -/
theorem chunks_iff (hdelimited : Delimited handle documents results)
    (hnonempty : ∀ chunk ∈ chunks, chunk ≠ []) (hstream : chunks.flatten <+: documents.flatten) :
    chunks.flatMap handle <+: results ↔ chunks <+: documents := by
  induction hdelimited generalizing chunks with
  | nil =>
    cases chunks with
    | nil => simp
    | cons chunk rest =>
      rw [List.flatten_nil, List.prefix_nil, List.flatten_cons, List.append_eq_nil_iff] at hstream
      exact absurd hstream.1 (hnonempty chunk List.mem_cons_self)
  | @cons document result documents results whole reject _ ih =>
    cases chunks with
    | nil => simp
    | cons chunk rest =>
      rw [List.flatten_cons, List.flatten_cons] at hstream
      by_cases hsame : chunk = document
      · subst hsame
        rw [List.prefix_append_right_inj] at hstream
        have hrest := ih (fun other hother ↦ hnonempty other (.tail _ hother)) hstream
        rw [List.flatMap_cons, whole, List.singleton_append, List.cons_prefix_cons,
          List.cons_prefix_cons, hrest]
        exact and_congr_left fun _ ↦ iff_of_true rfl rfl
      · have hchunk := (List.prefix_append chunk rest.flatten).trans hstream
        obtain ⟨other, hne, hhandle⟩ := reject chunk (hnonempty chunk List.mem_cons_self) hsame
          hchunk
        rw [List.flatMap_cons, hhandle, List.singleton_append, List.cons_prefix_cons,
          List.cons_prefix_cons]
        exact iff_of_false (fun hresults ↦ hne hresults.1) fun hdocuments ↦ hsame hdocuments.1

/-- Chunks of the beginning of the stream give all results exactly when they are the documents. -/
theorem eq_iff (hdelimited : Delimited handle documents results)
    (hnonempty : ∀ chunk ∈ chunks, chunk ≠ []) (hstream : chunks.flatten <+: documents.flatten) :
    chunks.flatMap handle = results ↔ chunks = documents := by
  constructor
  · intro hresults
    obtain ⟨later, rfl⟩ := (hdelimited.chunks_iff hnonempty hstream).mp (hresults ▸ List.prefix_rfl)
    have hnone : later.flatMap handle = [] := by
      have hall := hdelimited.flatMap_documents
      rw [List.flatMap_append, hresults] at hall
      exact List.append_right_eq_self.mp hall
    cases later with
    | nil => rw [List.append_nil]
    | cons document later =>
      obtain ⟨result, hresult⟩ := hdelimited.exists_result
        (List.mem_append_right chunks (List.mem_cons_self : document ∈ document :: later))
      rw [List.flatMap_cons, hresult] at hnone
      cases hnone
  · rintro rfl
    exact hdelimited.flatMap_documents

end Delimited

/-! ### Streams with a chunk that is rejected -/

/-- A chunk that begins where a document begins, but does not end where it ends, is rejected. -/
inductive Apart (rejected : List α → Prop) : List (List α) → Prop
  | nil : Apart rejected []
  | cons {document : List α} {documents : List (List α)}
      (reject : ∀ chunk, chunk ≠ [] → chunk ≠ document →
        chunk <+: document ++ documents.flatten → rejected chunk)
      (rest : Apart rejected documents) : Apart rejected (document :: documents)

/-- Chunks of the beginning of the stream are the first documents, or the first of them are and one
that is rejected follows. -/
theorem Apart.split {rejected : List α → Prop} {documents chunks : List (List α)}
    (hapart : Apart rejected documents) (hnonempty : ∀ chunk ∈ chunks, chunk ≠ [])
    (hstream : chunks.flatten <+: documents.flatten) :
    chunks <+: documents ∨ ∃ whole chunk later,
      chunks = whole ++ chunk :: later ∧ whole <+: documents ∧ rejected chunk := by
  induction hapart generalizing chunks with
  | nil =>
    cases chunks with
    | nil => exact Or.inl List.prefix_rfl
    | cons chunk rest =>
      rw [List.flatten_nil, List.prefix_nil, List.flatten_cons, List.append_eq_nil_iff] at hstream
      exact absurd hstream.1 (hnonempty chunk List.mem_cons_self)
  | @cons document documents reject _ ih =>
    cases chunks with
    | nil => exact Or.inl List.nil_prefix
    | cons chunk rest =>
      rw [List.flatten_cons, List.flatten_cons] at hstream
      by_cases hsame : chunk = document
      · subst hsame
        rw [List.prefix_append_right_inj] at hstream
        rcases ih (fun other hother ↦ hnonempty other (.tail _ hother)) hstream with
          hrest | ⟨whole, other, later, rfl, hwhole, hother⟩
        · exact Or.inl (List.cons_prefix_cons.mpr ⟨rfl, hrest⟩)
        · exact Or.inr ⟨chunk :: whole, other, later, rfl,
            List.cons_prefix_cons.mpr ⟨rfl, hwhole⟩, hother⟩
      · exact Or.inr ⟨[], chunk, rest, rfl, List.nil_prefix,
          reject chunk (hnonempty chunk List.mem_cons_self) hsame
            ((List.prefix_append chunk rest.flatten).trans hstream)⟩

end KoboldKhat.Library
