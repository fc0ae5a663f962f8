import KoboldKhat.Server.Provenance

/-!
# One name a session

A session has no name until `handleMessage` stores one for it, and keeps the first name stored that
is not empty (`Identified.changes`). As the name is announced before anything is said under it,
every chat line and every line of departure of a session carries its one name and comes after the
announcement (`sessionIdentity`). This holds for every kind of mutex, however the loops go on after
an erasure, and whatever the network does.
-/

set_option autoImplicit false
set_option relaxedAutoImplicit false

namespace KoboldKhat.Server

open Library

/-! ### Changes of the name -/

/-- The change a deed makes to the user name of a session: the name before and the one after. -/
def Deed.nameChange (client : SessionId) (deed : Deed) : List (Bytes × Bytes) :=
  match deed.moment.action with
  | .perform (.registry (.setUsername renamed newUsername)) =>
    if renamed = client ∧ deed.moment.state.username client ≠ newUsername then
      [(deed.moment.state.username client, newUsername)]
    else []
  | _ => []

/-- The changes of the user name of a session, in their order. -/
def nameChanges (client : SessionId) (deeds : List Deed) : List (Bytes × Bytes) :=
  deeds.flatMap (Deed.nameChange client)

theorem nameChanges_concat (client : SessionId) (deeds : List Deed) (deed : Deed) :
    nameChanges client (deeds ++ [deed]) = nameChanges client deeds ++ deed.nameChange client := by
  rw [nameChanges, List.flatMap_append, List.flatMap_singleton]
  rfl

theorem broadcasts_concat_subset (deeds : List Deed) (deed : Deed) :
    broadcasts deeds ⊆ broadcasts (deeds ++ [deed]) := by
  unfold broadcasts
  rw [List.filterMap_append]
  exact List.subset_append_left _ _

/-- What the deeds so far say about the names: each session has changed its name once from the empty
one or not at all, has had no other name, and is announced unless it has just been named. -/
structure Identified (deeds : List Deed) (known : Known) : Prop where
  changes : ∀ client, nameChanges client deeds =
    if known.names client = [] then [] else [([], known.names client)]
  constant : ∀ deed ∈ deeds, ∀ client, deed.moment.state.username client ≠ [] →
    deed.moment.state.username client = known.names client
  announced : ∀ client, known.names client ≠ [] →
    (.joined client, joinedLine (known.names client)) ∈ broadcasts deeds ∨
      known.fresh = some client

section Keeping

variable {parse : Bytes → Option Json} {deeds : List Deed} {known : Known} {deed : Deed}

/-- A deed that changes no name keeps what is said, if it announces the name just stored or leaves
it to announce. -/
theorem Identified.concat (hidentified : Identified deeds known)
    (hnames : deed.moment.state.username = known.names)
    (hchange : ∀ client, deed.nameChange client = []) {fresh : Option SessionId}
    (hannounced : ∀ client, known.fresh = some client →
      (.joined client, joinedLine (known.names client)) ∈ broadcasts (deeds ++ [deed]) ∨
        fresh = some client) :
    Identified (deeds ++ [deed]) ⟨known.names, fresh⟩ where
  changes := fun client ↦ by
    rw [nameChanges_concat, hchange, List.append_nil]
    exact hidentified.changes client
  constant := by
    intro other hmember client hnamed
    rcases List.mem_append.mp hmember with hold | hnew
    · exact hidentified.constant other hold client hnamed
    · rw [List.mem_singleton.mp hnew, hnames]
  announced := by
    intro client hnamed
    rcases hidentified.announced client hnamed with hjoined | hfresh
    · exact Or.inl (broadcasts_concat_subset deeds deed hjoined)
    · exact hannounced client hfresh

/-- An operation that assigns no name changes none. -/
theorem nameChange_of_keepsNames {event : Event} {callers : List Procedure} {operation : Operation}
    {state : State} (hkeeps : operation.KeepsNames) (client : SessionId) :
    (Deed.mk event ⟨callers, .perform operation, state⟩).nameChange client = [] := by
  unfold Deed.nameChange
  split
  · rename_i renamed newUsername hoperation
    exact absurd (Action.perform.inj hoperation) (hkeeps renamed newUsername)
  · rfl

/-- The assignment of a name to a session without one changes its name, unless the name is empty
too. -/
theorem Identified.rename (hidentified : Identified deeds known) {event : Event}
    {callers : List Procedure} {client : SessionId} {newUsername : Bytes} {state : State}
    (hnames : state.username = known.names) (hunnamed : known.names client = [])
    (hsettled : known.fresh = none) :
    Identified (deeds ++
      [⟨event, ⟨callers, .perform (.registry (.setUsername client newUsername)), state⟩⟩])
      (known.rename client newUsername) where
  changes := by
    intro other
    rw [nameChanges_concat, hidentified.changes other]
    simp only [Deed.nameChange, hnames]
    by_cases hother : client = other
    · subst hother
      rw [known.rename_names_self, hunnamed, if_pos rfl, List.nil_append]
      by_cases hempty : newUsername = []
      · rw [if_pos hempty, if_neg fun hboth ↦ hboth.2 hempty.symm]
      · rw [if_neg hempty, if_pos ⟨rfl, fun hsame ↦ hempty hsame.symm⟩]
    · rw [known.rename_names_of_ne (Ne.symm hother),
        if_neg fun hboth : client = other ∧ _ ↦ hother hboth.1, List.append_nil]
  constant := by
    intro deed hmember other hnamed
    have hbefore : deed.moment.state.username other = known.names other := by
      rcases List.mem_append.mp hmember with hold | hnew
      · exact hidentified.constant deed hold other hnamed
      · rw [List.mem_singleton.mp hnew, hnames]
    have hother : other ≠ client := by
      rintro rfl
      exact hnamed (hbefore.trans hunnamed)
    rw [hbefore, known.rename_names_of_ne hother]
  announced := by
    intro other hnamed
    by_cases hother : other = client
    · exact Or.inr (congrArg some hother.symm)
    · rw [known.rename_names_of_ne hother] at hnamed ⊢
      rcases hidentified.announced other hnamed with hjoined | hfresh
      · exact Or.inl (broadcasts_concat_subset deeds _ hjoined)
      · rw [hsettled] at hfresh
        cases hfresh

/-- Before `start` nobody has a name. -/
theorem identified_initial (maxClients : ℕ) :
    Identified [] ⟨(initial maxClients).username, none⟩ where
  changes := fun _ ↦ rfl
  constant := fun _ hmember ↦ absurd hmember List.not_mem_nil
  announced := fun _ hnamed ↦ absurd rfl hnamed

/-- The deeds of a run have what is said about the names. -/
theorem identified_chronicle : Chronicle parse Identified where
  operated := by
    intro deeds known event callers operation state hidentified hnames hkeeps
    exact hidentified.concat hnames (nameChange_of_keepsNames hkeeps) fun _ hfresh ↦ Or.inr hfresh
  named := by
    rintro deeds known event callers client newUsername state hidentified hnames
      ⟨-, hsettled, hunnamed, -⟩
    exact hidentified.rename hnames hunnamed hsettled
  called := by
    rintro deeds known event callers procedure state hidentified hnames ⟨-, hsettles⟩
    refine hidentified.concat hnames (fun _ ↦ rfl) fun client hfresh ↦ Or.inl ?_
    obtain ⟨rfl, ⟨result, rfl⟩, rfl⟩ := hsettles client hfresh
    unfold broadcasts
    rw [List.filterMap_append]
    exact List.mem_append_right _ List.mem_cons_self

end Keeping

/-! ### The broadcasts of a session -/

section Broadcasts

variable {parse : Bytes → Option Json} {names : SessionId → Bytes} {deed : Deed}
  {client : SessionId} {line : Bytes}

/-- A broadcast with a purpose is a call of `broadcastMessage` with its line. -/
theorem exists_call_of_broadcast {purpose : Purpose}
    (hbroadcast : deed.broadcast = some (purpose, line)) :
    ∃ excludeSocket, deed.moment.action = .call (.broadcastMessage line excludeSocket) ∧
      purposeOf deed.event deed.moment.callers excludeSocket = some purpose := by
  unfold Deed.broadcast at hbroadcast
  split at hbroadcast
  · rename_i message excludeSocket haction
    obtain ⟨found, hfound, hboth⟩ := Option.map_eq_some_iff.mp hbroadcast
    obtain ⟨rfl, rfl⟩ := Prod.mk.inj hboth
    exact ⟨excludeSocket, haction, hfound⟩
  · cases hbroadcast

/-- A relay is made by the handler of a message, and leaves out one session. -/
theorem purposeOf_eq_relayed {event : Event} {callers : List Procedure}
    {excludeSocket : Option SessionId}
    (hpurpose : purposeOf event callers excludeSocket = some (.relayed client)) :
    callers = [] ∧ (∃ excluded, excludeSocket = some excluded) ∧
      ∃ result, event = .runRead client result := by
  cases callers with
  | nil =>
    cases event with
    | runRead reader result =>
      cases excludeSocket with
      | none => cases hpurpose
      | some excluded =>
        cases hpurpose
        exact ⟨rfl, ⟨excluded, rfl⟩, result, rfl⟩
    | _ => cases hpurpose
  | cons caller rest =>
    cases caller with
    | removeClient removed => cases hpurpose
    | broadcastMessage message excluded => cases event <;> cases hpurpose

/-- The announcement of a departure is made by the removal of the session. -/
theorem purposeOf_eq_departed {event : Event} {callers : List Procedure}
    {excludeSocket : Option SessionId}
    (hpurpose : purposeOf event callers excludeSocket = some (.departed client)) :
    ∃ rest, callers = .removeClient client :: rest := by
  cases callers with
  | nil =>
    cases event with
    | runRead reader result => cases excludeSocket <;> cases hpurpose
    | _ => cases hpurpose
  | cons caller rest =>
    cases caller with
    | removeClient removed =>
      cases hpurpose
      exact ⟨rest, rfl⟩
    | broadcastMessage message excluded => cases event <;> cases hpurpose

/-- A relay carries the name of the session. -/
theorem relayed_of_opened {event : Event} {result : ReadResult} {excluded : SessionId}
    (hevent : event = .runRead client result)
    (hopened : Opened parse event names [.broadcastMessage line (some excluded)]) :
    names client ≠ [] ∧ ∃ message newUsername, event.Brings parse client message newUsername ∧
      line = chatLine (names client) message := by
  generalize hcalls : [Procedure.broadcastMessage line (some excluded)] = calls at hopened
  cases hopened with
  | external message excludeSocket isBroadcast =>
    rw [hevent] at isBroadcast
    cases isBroadcast
  | joined sender message brings notCommand => cases hcalls
  | relayed sender message newUsername brings notCommand named =>
    cases hcalls
    obtain ⟨chunk, hsame, -⟩ := id brings
    rw [hevent] at hsame
    obtain ⟨rfl, -⟩ := Event.runRead.inj hsame
    exact ⟨named, message, newUsername, brings, rfl⟩
  | readError sender isError => cases hcalls
  | failed sender message excludeSocket rest opened included => cases hcalls
  | departed sender rest opened named => cases hcalls

/-- The line of a departure carries the name of the session. -/
theorem departed_of_opened {event : Event} {rest : List Procedure}
    {excludeSocket : Option SessionId}
    (hopened : Opened parse event names
      (.broadcastMessage line excludeSocket :: .removeClient client :: rest)) :
    names client ≠ [] ∧ line = disconnectedLine (names client) := by
  cases hopened with
  | departed client rest opened named => exact ⟨named, rfl⟩

end Broadcasts

/-- In every run, in every setting: the user name of a session changes at most once, from the empty
name to its last one. A chat line that is broadcast for the session carries this name, and so does
the line of its departure; the name is not empty then, and the announcement that the session has
joined under it was started before. -/
theorem sessionIdentity {setting : Setting} {depth : ℕ} {parse : Bytes → Option Json}
    {maxClients : ℕ} {events : List Event} {deeds : List Deed} {last : State}
    (hends : TracedEnds setting depth parse (initial maxClients) events deeds last)
    (client : SessionId) :
    (nameChanges client deeds =
      if last.username client = [] then [] else [([], last.username client)]) ∧
    ∀ earlier deed later, deeds = earlier ++ deed :: later → ∀ line,
      (deed.broadcast = some (.relayed client, line) →
        last.username client ≠ [] ∧
        (∃ message newUsername, deed.event.Brings parse client message newUsername ∧
          line = chatLine (last.username client) message) ∧
        (.joined client, joinedLine (last.username client)) ∈ broadcasts earlier) ∧
      (deed.broadcast = some (.departed client, line) →
        last.username client ≠ [] ∧ line = disconnectedLine (last.username client) ∧
        (.joined client, joinedLine (last.username client)) ∈ broadcasts earlier) := by
  obtain ⟨haccounted, final, hfinal, hlast⟩ :=
    identified_chronicle.ends (identified_initial maxClients) hends
  constructor
  · rw [hlast]
    exact hfinal.changes client
  intro earlier deed later hsplit line
  obtain ⟨known, hidentified, hnames, hpermits⟩ := haccounted.at hsplit
  have hconstant : known.names client ≠ [] → last.username client = known.names client := by
    intro hnamed
    rw [hlast, ← hnames]
    rw [← hnames] at hnamed
    have hmember : deed ∈ deeds := hsplit ▸ List.mem_append_right _ List.mem_cons_self
    exact (hfinal.constant deed hmember client hnamed).symm
  constructor
  · intro hbroadcast
    obtain ⟨_, haction, hpurpose⟩ := exists_call_of_broadcast hbroadcast
    obtain ⟨hcallers, ⟨excluded, rfl⟩, result, hevent⟩ := purposeOf_eq_relayed hpurpose
    rw [haction, hcallers] at hpermits
    obtain ⟨hopened, hsettles⟩ := hpermits
    obtain ⟨hnamed, hline⟩ := relayed_of_opened hevent hopened
    have hsettled : known.fresh ≠ some client := by
      intro hfresh
      cases (hsettles client hfresh).2.2
    rw [hconstant hnamed]
    exact ⟨hnamed, hline, (hidentified.announced client hnamed).resolve_right hsettled⟩
  · intro hbroadcast
    obtain ⟨excludeSocket, haction, hpurpose⟩ := exists_call_of_broadcast hbroadcast
    obtain ⟨rest, hcallers⟩ := purposeOf_eq_departed hpurpose
    rw [haction, hcallers] at hpermits
    obtain ⟨hopened, hsettles⟩ := hpermits
    obtain ⟨hnamed, hline⟩ := departed_of_opened hopened
    have hsettled : known.fresh ≠ some client := by
      intro hfresh
      cases (hsettles client hfresh).1
    rw [hconstant hnamed]
    exact ⟨hnamed, hline, (hidentified.announced client hnamed).resolve_right hsettled⟩

/-- Every chunk is a greeting of one user. -/
def greeting (_ : Bytes) : Option Json :=
  some (envelope (ascii "kobold") (ascii "hi"))

/-- A client connects, sends two chunks and is gone. -/
def shortVisit : List Event :=
  [.start, .acceptCompletes .success, .runAccept .success, .readCompletes 0 (.data [1]),
    .runRead 0 (.data [1]), .readCompletes 0 (.data [1]), .runRead 0 (.data [1]),
    .readCompletes 0 .error, .runRead 0 .error]

/-- A session that joins, says something and leaves. -/
theorem sessionIdentity_of_shortVisit :
    ∃ deeds last, TracedEnds (standard reliable) 4 greeting (initial 10) shortVisit deeds last ∧
      broadcasts deeds = [(.joined 0, joinedLine (ascii "kobold")),
        (.relayed 0, chatLine (ascii "kobold") (ascii "hi")),
        (.departed 0, disconnectedLine (ascii "kobold"))] ∧
      nameChanges 0 deeds =
        (if last.username 0 = [] then [] else [([], last.username 0)]) ∧
      ∀ earlier deed later, deeds = earlier ++ deed :: later → ∀ line,
        (deed.broadcast = some (.relayed 0, line) →
          last.username 0 ≠ [] ∧
          (∃ message newUsername, deed.event.Brings greeting 0 message newUsername ∧
            line = chatLine (last.username 0) message) ∧
          (.joined 0, joinedLine (last.username 0)) ∈ broadcasts earlier) ∧
        (deed.broadcast = some (.departed 0, line) →
          last.username 0 ≠ [] ∧ line = disconnectedLine (last.username 0) ∧
          (.joined 0, joinedLine (last.username 0)) ∈ broadcasts earlier) := by
  have hsome : (playAt (standard reliable) 4 greeting shortVisit (initial 10)).isSome = true := by
    decide
  have hrun := traced_playAt hsome
  exact ⟨_, _, .returned hrun, rfl, sessionIdentity (.returned hrun) 0⟩

end KoboldKhat.Server
