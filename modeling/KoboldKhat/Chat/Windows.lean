import KoboldKhat.Chat.Refinement
import KoboldKhat.Client.Typing

/-!
# What the windows show

The server and any number of client applications as they are, each with its two threads in the
middle of the calls they make on their queue (`Deployment`). Seen from the clients, this is the chat
in which a client takes one step for each of these calls: the chat can do whatever the deployment
does (`Pictures.step`), so it comes to whatever the deployment comes to (`exists_picture`).

As long as the server lives, the users are therefore in one room: each speaks as the first texts it
has typed say, and the texts that come into its window are the beginning of what it has heard, if no
write to it failed and its queue has never been over its limit (`windowsShowRoom`).
-/

set_option autoImplicit false
set_option relaxedAutoImplicit false

namespace KoboldKhat.Chat

open Library Server

/-- The server and the client applications, all of whose connections are established. -/
structure Deployment where
  /-- The server. -/
  server : Server.State
  /-- How the thread of the server ended, if it has. -/
  fault : Option Fault := none
  /-- The events of the server so far. -/
  events : List Server.Event := []
  /-- The application of each session. -/
  app : SessionId → Client.App := fun _ ↦ {}
  /-- The calls that its threads make on the queue. -/
  calls : SessionId → Client.Calls := fun _ ↦ ⟨Tsqueue.started [], fun _ ↦ none⟩

namespace Deployment

/-- The deployment after an event of the server. -/
def serve (strtod : Bytes → Double) (network : Network) (event : Server.Event)
    (deployment : Deployment) : Deployment :=
  match Server.step (Parser.parse strtod) network event deployment.server with
  | .returned _ after =>
    { deployment with server := after, events := deployment.events ++ [event] }
  | .stopped fault after =>
    { deployment with server := after, fault, events := deployment.events ++ [event] }

/-- An event of the server leaves the applications alone. -/
@[simp] theorem serve_app (strtod : Bytes → Double) (network : Network) (event : Server.Event)
    (deployment : Deployment) : (deployment.serve strtod network event).app = deployment.app := by
  unfold serve
  split <;> rfl

@[simp] theorem serve_calls (strtod : Bytes → Double) (network : Network) (event : Server.Event)
    (deployment : Deployment) :
    (deployment.serve strtod network event).calls = deployment.calls := by
  unfold serve
  split <;> rfl

/-- The deployment after a step of one application. -/
def withApp (deployment : Deployment) (session : SessionId) (app : Client.App)
    (calls : Client.Calls) : Deployment :=
  { deployment with
    app := Function.update deployment.app session app
    calls := Function.update deployment.calls session calls }

/-- A read of the server completes with the next bytes that the application has written. -/
def CarriesUp (deployment : Deployment) : Server.Event → Prop
  | .readCompletes session result =>
    (delivered session deployment.events ++ result.chunks).flatten <+:
      (deployment.app session).outgoing
  | _ => True

instance (deployment : Deployment) :
    (event : Server.Event) → Decidable (deployment.CarriesUp event)
  | .readCompletes session result => inferInstanceAs (Decidable
    ((delivered session deployment.events ++ result.chunks).flatten <+:
      (deployment.app session).outgoing))
  | .broadcast _ _ => inferInstanceAs (Decidable True)
  | .shutdown => inferInstanceAs (Decidable True)
  | .start => inferInstanceAs (Decidable True)
  | .acceptCompletes _ => inferInstanceAs (Decidable True)
  | .runAccept _ => inferInstanceAs (Decidable True)
  | .runRead _ _ => inferInstanceAs (Decidable True)

end Deployment

section Steps

variable (strtod : Bytes → Double) (toChars : Double → Bytes) (network : Network)

/-- One step of the server, or of a thread of an application. An application reads the first bytes
that the server has written to it. -/
inductive Deployment.Step (deployment : Deployment) : Deployment → Prop
  | serve (event : Server.Event) (alive : deployment.fault = none) (ofMain : OfMain event)
      (carries : deployment.CarriesUp event) (enabled : event.Enabled deployment.server) :
      deployment.Step (deployment.serve strtod network event)
  | run (session : SessionId) (app : Client.App) (calls : Client.Calls)
      (steps : (Client.users (Serializer.dump toChars) true).Step Client.program
        (deployment.app session, deployment.calls session) (app, calls))
      (carries : app.received.flatten <+: deployment.server.outgoing session) :
      deployment.Step (deployment.withApp session app calls)

/-- The deployment comes, in some interleaving of all steps, from a server that has not been started
and before anybody has connected. -/
def Deployment.Reachable (deployment : Deployment) : Prop :=
  ∃ maxClients, Relation.ReflTransGen (Deployment.Step strtod toChars network)
    { server := initial maxClients } deployment

/-- The chat is the deployment seen from its clients. -/
structure Pictures (deployment : Deployment) (system : System) : Prop where
  server : system.server = deployment.server
  fault : system.fault = deployment.fault
  events : system.events = deployment.events
  clients : ∀ session, ∃ queue, Client.Tracks (deployment.calls session) queue ∧
    (deployment.app session).Fits queue ∧
    (system.client session = if (deployment.app session).screen = .connecting then none
      else some ((deployment.app session).view queue)) ∧
    system.said session = (deployment.app session).given

variable {strtod toChars network} {deployment after : Deployment} {system : System}

/-- What the client of a session has written is what its application has. -/
theorem Pictures.outgoing (hpictures : Pictures deployment system) (session : SessionId) :
    system.outgoing session = (deployment.app session).outgoing := by
  obtain ⟨queue, -, hfits, hclient, -⟩ := hpictures.clients session
  rw [System.outgoing, hclient]
  split_ifs with hconnecting
  · rw [(hfits.unconnected hconnecting).1]
    rfl
  · rfl

/-- What the server reads in the deployment it reads in the chat. -/
theorem Pictures.carriesUp (hpictures : Pictures deployment system) {event : Server.Event}
    (hcarries : deployment.CarriesUp event) : system.CarriesUp event := by
  cases event with
  | readCompletes session result =>
    show (delivered session system.events ++ result.chunks).flatten <+: system.outgoing session
    rw [hpictures.events, hpictures.outgoing session]
    exact hcarries
  | _ => trivial

/-- After a step of one application the chat is what it was for the others. -/
theorem Pictures.withApp (hpictures : Pictures deployment system) {session : SessionId}
    {app : Client.App} {calls : Client.Calls} {next : System}
    (hserver : next.server = system.server) (hfault : next.fault = system.fault)
    (hevents : next.events = system.events)
    (hothers : ∀ other ≠ session, next.client other = system.client other ∧
      next.said other = system.said other)
    (hsession : ∃ queue, Client.Tracks calls queue ∧ app.Fits queue ∧
      (next.client session = if app.screen = .connecting then none else some (app.view queue)) ∧
      next.said session = app.given) :
    Pictures (deployment.withApp session app calls) next where
  server := hserver.trans hpictures.server
  fault := hfault.trans hpictures.fault
  events := hevents.trans hpictures.events
  clients := fun other ↦ by
    by_cases hother : other = session
    · subst hother
      simpa only [Deployment.withApp, Function.update_self] using hsession
    · obtain ⟨hclient, hsaid⟩ := hothers other hother
      simpa only [Deployment.withApp, Function.update_of_ne hother, hclient, hsaid] using
        hpictures.clients other

/-- The chat can do what the server does in the deployment. -/
theorem Pictures.serve (hpictures : Pictures deployment system) {event : Server.Event}
    (halive : deployment.fault = none) (hmain : OfMain event)
    (hcarries : deployment.CarriesUp event) (henabled : event.Enabled deployment.server) :
    ∃ next, Pictures (deployment.serve strtod network event) next ∧
      system.step strtod toChars network (.serve event) = some next := by
  have hready : system.fault = none ∧ OfMain event ∧ system.CarriesUp event ∧
      event.Enabled deployment.server :=
    ⟨hpictures.fault.trans halive, hmain, hpictures.carriesUp hcarries, henabled⟩
  have hevents : system.events ++ [event] = deployment.events ++ [event] :=
    congrArg (· ++ [event]) hpictures.events
  simp only [System.step, hpictures.server]
  rw [if_pos hready]
  unfold Deployment.serve
  cases Server.step (Parser.parse strtod) network event deployment.server with
  | returned value state =>
    exact ⟨system.served event state none, ⟨rfl, halive.symm, hevents, hpictures.clients⟩, rfl⟩
  | stopped fault state =>
    exact ⟨system.served event state (some fault), ⟨rfl, rfl, hevents, hpictures.clients⟩, rfl⟩

/-- The chat can do what an application does in the deployment, or does nothing. -/
theorem Pictures.run (hpictures : Pictures deployment system) {session : SessionId}
    {app : Client.App} {calls : Client.Calls}
    (hsteps : (Client.users (Serializer.dump toChars) true).Step Client.program
      (deployment.app session, deployment.calls session) (app, calls))
    (hcarries : app.received.flatten <+: deployment.server.outgoing session) :
    ∃ next, Pictures (deployment.withApp session app calls) next ∧
      (next = system ∨ ∃ move, system.step strtod toChars network move = some next) := by
  obtain ⟨queue, htracks, hfits, hclient, hsaid⟩ := hpictures.clients session
  obtain ⟨left, hleft, hsame | hstep⟩ := hsteps.matched Client.program_matches htracks
  · obtain ⟨rfl, rfl⟩ := Prod.mk.inj hsame
    exact ⟨system, hpictures.withApp rfl rfl rfl (fun _ _ ↦ ⟨rfl, rfl⟩)
      ⟨left, hleft, hfits, hclient, hsaid⟩, Or.inl rfl⟩
  · obtain ⟨hfitsAfter, hchats, hmirrored⟩ := Client.mirrored_of_step hfits hstep
    cases hmirrored with
    | connected username answer typed connecting client looks given =>
      rw [if_pos connecting] at hclient
      have hgiven : (deployment.app session).given = [] := by
        rw [(hfits.unconnected connecting).1]
      refine ⟨system.withClient session (Client.connect (Serializer.dump toChars) true answer
        (Client.created username)) [username], ?_, Or.inr ⟨.connect session username answer, ?_⟩⟩
      · refine hpictures.withApp rfl rfl rfl (fun other hother ↦ ?_)
          ⟨left, hleft, hfitsAfter, ?_, ?_⟩
        · exact ⟨Function.update_of_ne hother .., Function.update_of_ne hother ..⟩
        · rw [if_neg hchats, client]
          exact Function.update_self ..
        · have hsays : system.said session ++ [username] = app.given := by
            rw [hsaid, hgiven, given]
            rfl
          exact (Function.update_self ..).trans hsays
      · simp only [System.step, hclient]
    | unseen chatting client looks given =>
      refine ⟨system, hpictures.withApp rfl rfl rfl (fun _ _ ↦ ⟨rfl, rfl⟩)
        ⟨left, hleft, hfitsAfter, ?_, hsaid.trans given.symm⟩, Or.inl rfl⟩
      rw [hclient, if_neg chatting, if_neg hchats, client]
    | stepped chatting event steps looks given =>
      rw [if_neg chatting] at hclient
      refine ⟨system.withClient session (app.view left) event.said, ?_,
        Or.inr ⟨.act session event, ?_⟩⟩
      · refine hpictures.withApp rfl rfl rfl (fun other hother ↦ ?_)
          ⟨left, hleft, hfitsAfter, ?_, ?_⟩
        · exact ⟨Function.update_of_ne hother .., Function.update_of_ne hother ..⟩
        · rw [if_neg hchats]
          exact Function.update_self ..
        · rw [given, ← hsaid]
          exact Function.update_self ..
      · have hdown : system.CarriesDown session (app.view left) := by
          rw [← hpictures.server] at hcarries
          exact hcarries
        simp only [System.step, hclient, steps, if_pos hdown]

/-- The chat can do what the deployment does, or does nothing. -/
theorem Pictures.step (hpictures : Pictures deployment system)
    (hstep : deployment.Step strtod toChars network after) :
    ∃ next, Pictures after next ∧
      (next = system ∨ ∃ move, system.step strtod toChars network move = some next) := by
  cases hstep with
  | serve event alive ofMain carries enabled =>
    obtain ⟨next, hnext, hmove⟩ := hpictures.serve alive ofMain carries enabled
    exact ⟨next, hnext, Or.inr ⟨.serve event, hmove⟩⟩
  | run session app calls steps carries => exact hpictures.run steps carries

/-- The chat comes to whatever the deployment comes to, as it is seen from the clients. -/
theorem exists_picture (hreachable : deployment.Reachable strtod toChars network) :
    ∃ system, (chat strtod toChars network).Reachable system ∧ Pictures deployment system := by
  obtain ⟨maxClients, hsteps⟩ := hreachable
  induction hsteps with
  | refl =>
    refine ⟨{ server := initial maxClients }, ⟨_, [], ⟨maxClients, rfl⟩, rfl⟩, rfl, rfl, rfl,
      fun session ↦ ⟨⟨[], fun _ ↦ .idle⟩, Client.tracks_started, ?_, rfl, rfl⟩⟩
    exact ⟨.idle _, .idle _, fun _ ↦ ⟨rfl, rfl⟩⟩
  | tail earlier hstep ih =>
    obtain ⟨system, ⟨first, moves, hinitial, hrun⟩, hpictures⟩ := ih
    obtain ⟨next, hnext, rfl | ⟨move, hmove⟩⟩ := hpictures.step hstep
    · exact ⟨next, ⟨first, moves, hinitial, hrun⟩, hnext⟩
    · exact ⟨next, ⟨first, moves ++ [move], hinitial, Automaton.run_concat hrun hmove⟩, hnext⟩

/-- Each application takes the steps of an application. -/
theorem reaches_of_reachable (hreachable : deployment.Reachable strtod toChars network)
    (session : SessionId) :
    Client.Reaches (Serializer.dump toChars) true (deployment.app session)
      (deployment.calls session) := by
  obtain ⟨maxClients, hsteps⟩ := hreachable
  induction hsteps with
  | refl => exact .refl
  | tail earlier hstep ih =>
    cases hstep with
    | serve event alive ofMain carries enabled =>
      unfold Deployment.serve
      split
      · exact ih
      · exact ih
    | run other app calls steps carries =>
      by_cases hother : session = other
      · subst hother
        simp only [Deployment.withApp, Function.update_self]
        exact ih.tail steps
      · simp only [Deployment.withApp, Function.update_of_ne hother]
        exact ih

/-- If the queue was never over its limit, all messages looked at the size for are admitted. -/
theorem admitted_eq_of_limit {looks : List (Bytes × ℕ)}
    (hlimit : ∀ look ∈ looks, look.2 ≤ Client.queueLimit) :
    Client.admitted looks = looks.map Prod.fst := by
  rw [Client.admitted, List.filter_eq_self.mpr]
  exact fun look hlook ↦ decide_eq_true (hlimit look hlook)

/-- The texts that came into the window are the first chunks read, if the queue was never over its
limit. -/
theorem receivedTexts_isPrefix {dump : Json → Option Bytes} {established : Bool} {app : Client.App}
    {calls : Client.Calls} (hreaches : Client.Reaches dump established app calls)
    (hlimit : ∀ look ∈ app.looks, look.2 ≤ Client.queueLimit) :
    Client.receivedTexts app.messages <+: app.received := by
  obtain ⟨queue, -, -, horderly⟩ := hreaches.exists_orderly
  have hkept := horderly.kept
  rw [admitted_eq_of_limit hlimit] at hkept
  have htaken : Client.receivedTexts app.messages <+: (app.view queue).pushed :=
    (List.prefix_append _ _).trans (List.prefix_append _ queue.items)
  have hlooked : app.looks.map Prod.fst <+: app.received := ⟨_, horderly.looked⟩
  exact (htaken.trans ⟨_, hkept⟩).trans hlooked

/-- As long as the server lives, the users are in a room, in every interleaving of the server and
the threads of all applications: what each says in it are the first texts it has typed, its name and
the texts its window shows as its own, in order and each once. The texts that came into its window
are the beginning of what it has heard in the room, if no write to it failed and its queue was never
over its limit. -/
theorem windowsShowRoom (hreachable : deployment.Reachable strtod toChars network)
    (halive : deployment.fault = none) :
    ∃ acts room, (Chat.room SessionId Bytes Bytes).run acts {} = some room ∧
      Represents room deployment.server ∧
      ∀ session,
        (∃ handled,
          handled <+: (deployment.app session).username ::
            Client.ownTexts (deployment.app session).messages ∧
          spokenBy session acts = actsOf session []
            (handled.map fun message ↦ .ok (message, (deployment.app session).username))) ∧
        (deployment.server.WritesReturned session →
          (∀ look ∈ (deployment.app session).looks, look.2 ≤ 250) →
          (Client.receivedTexts (deployment.app session).messages).flatten <+:
            ((room.heard session).map render).flatten) := by
  obtain ⟨system, hsystem, hpictures⟩ := exists_picture hreachable
  have hlives : system.fault = none := hpictures.fault.trans halive
  obtain ⟨acts, room, hroom, hrepresents, hspoken⟩ := exists_room hsystem hlives
  refine ⟨acts, room, hroom, hpictures.server ▸ hrepresents, fun session ↦ ?_⟩
  obtain ⟨queue, -, hfits, hclient, hsaid⟩ := hpictures.clients session
  have hreaches := reaches_of_reachable hreachable session
  by_cases hconnecting : (deployment.app session).screen = .connecting
  · rw [if_pos hconnecting] at hclient
    obtain ⟨happ, -⟩ := hfits.unconnected hconnecting
    refine ⟨?_, fun _ _ ↦ ?_⟩
    · obtain ⟨handled, hsays, hspeaks⟩ := hspoken session
      rw [hsaid, happ] at hsays
      rw [List.prefix_nil.mp hsays] at hspeaks
      exact ⟨[], List.nil_prefix, hspeaks⟩
    · rw [happ]
      exact List.nil_prefix
  · rw [if_neg hconnecting] at hclient
    have hname : system.name session = (deployment.app session).username := by
      rw [System.name, hclient]
      rfl
    have hgiven := hreaches.sends.given hconnecting
    refine ⟨?_, fun hreturned hlimit ↦ ?_⟩
    · obtain ⟨handled, hsays, hspeaks⟩ := hspoken session
      rw [hsaid, hgiven] at hsays
      rw [hname] at hspeaks
      exact ⟨handled, hsays, hspeaks⟩
    · obtain ⟨more, hmore⟩ := receivedTexts_isPrefix hreaches hlimit
      have hheard := received_isPrefix_heard hsystem hlives hrepresents hclient
        (hpictures.server ▸ hreturned)
      refine List.IsPrefix.trans ⟨more.flatten, ?_⟩ hheard
      rw [← List.flatten_append, hmore]
      rfl

/-- What an application does while everything else stands still, the deployment can do. -/
theorem Deployment.Reachable.run (hreachable : deployment.Reachable strtod toChars network)
    {session : SessionId} {app : Client.App} {calls : Client.Calls}
    (hleads : Client.Leads (Serializer.dump toChars) true
      (deployment.app session, deployment.calls session) app calls)
    (hcarries : app.received.flatten <+: deployment.server.outgoing session) :
    (deployment.withApp session app calls).Reachable strtod toChars network := by
  unfold Client.Leads at hleads
  generalize hlast : (app, calls) = last at hleads
  induction hleads generalizing app calls with
  | refl =>
    obtain ⟨rfl, rfl⟩ := Prod.mk.inj hlast
    rwa [Deployment.withApp, Function.update_eq_self, Function.update_eq_self]
  | @tail middle last earlier hstep ih =>
    obtain ⟨before, between⟩ := middle
    subst hlast
    obtain ⟨more, hmore⟩ := Client.received_of_step hstep
    have hbefore : before.received.flatten <+: deployment.server.outgoing session := by
      refine List.IsPrefix.trans ⟨more.flatten, ?_⟩ hcarries
      rw [← List.flatten_append, hmore]
    obtain ⟨maxClients, hsteps⟩ := ih hbefore rfl
    have hrun : (deployment.withApp session before between).Step strtod toChars network
        ((deployment.withApp session before between).withApp session app calls) := by
      refine .run session app calls ?_ hcarries
      simpa only [Deployment.withApp, Function.update_self] using hstep
    have hsame : (deployment.withApp session before between).withApp session app calls =
        deployment.withApp session app calls := by
      simp only [Deployment.withApp, Function.update_idem]
    exact ⟨maxClients, hsteps.tail (hsame ▸ hrun)⟩

end Steps

/-- The document with which Ann introduces herself. -/
def introduction : Bytes :=
  Parser.document (ascii "ann") (ascii "ann")

/-- The deployment in which Ann has connected and her name has been handled. -/
def joined : Deployment :=
  [.start, .acceptCompletes .success, .runAccept .success,
    .readCompletes 0 (.data introduction), .runRead 0 (.data introduction)].foldl
      (fun deployment event ↦ deployment.serve (fun _ ↦ 0) reliable event)
      (({ server := initial 10 } : Deployment).withApp 0
        (({} : Client.App).connect (Serializer.dump fun _ ↦ []) true .whole (ascii "ann"))
        ⟨Tsqueue.started [], fun _ ↦ none⟩)

/-- It can be reached. -/
theorem reachable_joined : joined.Reachable (fun _ ↦ 0) (fun _ ↦ []) reliable := by
  have htyped : Client.Typed 128 (ascii "ann") :=
    ⟨by decide, ⟨['a', 'n', 'n'], by decide⟩, by simp [ascii]⟩
  have hstart : Relation.ReflTransGen (Deployment.Step (fun _ ↦ 0) (fun _ ↦ []) reliable)
    { server := initial 10 } { server := initial 10 } := .refl
  have hconnected := hstart.tail (.run 0 _ _
    (.act ⟨.connect (ascii "ann") .whole, htyped, rfl⟩) List.nil_prefix)
  have hstarted := hconnected.tail (.serve .start rfl trivial trivial (by decide))
  have haccepted := hstarted.tail
    (.serve (.acceptCompletes .success) (by decide) trivial trivial (by decide))
  have hadmitted := haccepted.tail
    (.serve (.runAccept .success) (by decide) trivial trivial (by decide))
  have hread := hadmitted.tail
    (.serve (.readCompletes 0 (.data introduction)) (by decide) trivial (by decide) (by decide))
  exact ⟨10, hread.tail
    (.serve (.runRead 0 (.data introduction)) (by decide) trivial trivial (by decide))⟩

/-- The line that announces Ann. -/
def announcement : Bytes :=
  joinedLine (ascii "ann")

/-- Ann's application when it has read the announcement. -/
def announced (reader : Client.Reader) (screen : Client.Screen) (messages : List Client.Entry) :
    Client.App :=
  { ({} : Client.App).connect (Serializer.dump fun _ ↦ []) true .whole (ascii "ann") with
    reader, screen, messages
    received := [announcement]
    looks := [(announcement, 0)] }

/-- The announcement comes into her window. -/
theorem leads_announced :
    ∃ calls, Client.Leads (Serializer.dump fun _ ↦ []) true (joined.app 0, joined.calls 0)
        (announced .looping .draining [.received announcement]) calls ∧
      (∀ thread, calls.threads thread = none) ∧ calls.state.deqQueue = [] := by
  have hstart : Client.Leads (Serializer.dump fun _ ↦ []) true (joined.app 0, joined.calls 0)
      (({} : Client.App).connect (Serializer.dump fun _ ↦ []) true .whole (ascii "ann"))
      ⟨Tsqueue.started [], fun _ ↦ none⟩ := by
    have hjoined : (joined.app 0, joined.calls 0) =
        (({} : Client.App).connect (Serializer.dump fun _ ↦ []) true .whole (ascii "ann"),
          ⟨Tsqueue.started [], fun _ ↦ none⟩) := by
      simp [joined, Deployment.withApp]
    rw [hjoined]
    exact .refl
  have hread := (hstart.act .testConnected trivial rfl).act (.readSome (.data announcement))
    trivial rfl
  have hchecked : Client.Leads _ _ _ (announced (.pushing announcement) .draining []) _ :=
    hread.act .checkSize trivial rfl
  have hcalled := hchecked.invoke .reader (.pushBack announcement) rfl
    (by simp [Client.App.observe, announced]; rfl)
  have hpushed := (hcalled.reply () ⟨rfl, rfl⟩).reply () ⟨[announcement], rfl, rfl⟩
  have hparked : ∀ sleeper : Client.Thread, Tsqueue.Sleep.awake ≠ .parked := fun _ ↦ by decide
  have hnotified := (hpushed.reply () ⟨rfl, rfl⟩).reply () (.inr ⟨hparked, rfl⟩)
  have hreturned : Client.Leads _ _ _ (announced .looping .draining []) _ :=
    ((hnotified.reply () ⟨rfl, rfl⟩).reply () ⟨rfl, rfl⟩).respond
      (by simp [Client.App.observe, announced])
  have hasked := (hreturned.invoke .window .empty rfl rfl).reply () ⟨rfl, rfl⟩
  have hanswered : Client.Leads _ _ _ (announced .looping .taking []) _ :=
    ((hasked.reply false ⟨[announcement], rfl, rfl⟩).reply () ⟨rfl, rfl⟩).respond rfl
  have hlooked := ((hanswered.invoke .window .popFront rfl rfl).reply () ⟨rfl, rfl⟩).reply
    announcement ⟨[announcement], rfl, rfl⟩
  have htaken : Client.Leads _ _ _ (announced .looping .draining [.received announcement]) _ :=
    ((hlooked.reply () ⟨[], rfl, rfl⟩).reply () ⟨rfl, rfl⟩).respond rfl
  exact ⟨_, htaken, fun thread ↦ by simp [Function.update_apply], rfl⟩

/-- The deployment when it has. -/
def welcomed (calls : Client.Calls) : Deployment :=
  joined.withApp 0 (announced .looping .draining [.received announcement]) calls

/-- It can be reached, with nothing left in the queue. -/
theorem reachable_welcomed :
    ∃ calls, (welcomed calls).Reachable (fun _ ↦ 0) (fun _ ↦ []) reliable ∧
      (∀ thread, calls.threads thread = none) ∧ calls.state.deqQueue = [] := by
  obtain ⟨calls, hleads, hcalls, hqueue⟩ := leads_announced
  exact ⟨calls, reachable_joined.run hleads (by decide), hcalls, hqueue⟩

/-- Ann's window shows the announcement that she has heard. -/
theorem windowsShowRoom_welcomed :
    ∃ calls, (welcomed calls).Reachable (fun _ ↦ 0) (fun _ ↦ []) reliable ∧
      (welcomed calls).fault = none ∧
      ((welcomed calls).app 0).messages = [.received announcement] ∧
      ∃ acts room, (Chat.room SessionId Bytes Bytes).run acts {} = some room ∧
        Represents room (welcomed calls).server ∧
        ∀ session,
          (∃ handled,
            handled <+: ((welcomed calls).app session).username ::
              Client.ownTexts ((welcomed calls).app session).messages ∧
            spokenBy session acts = actsOf session []
              (handled.map fun message ↦ .ok (message, ((welcomed calls).app session).username))) ∧
          ((welcomed calls).server.WritesReturned session →
            (∀ look ∈ ((welcomed calls).app session).looks, look.2 ≤ 250) →
            (Client.receivedTexts ((welcomed calls).app session).messages).flatten <+:
              ((room.heard session).map render).flatten) := by
  obtain ⟨calls, hreachable, -, -⟩ := reachable_welcomed
  have hlives : joined.fault = none := by decide
  exact ⟨calls, hreachable, hlives, rfl, windowsShowRoom hreachable hlives⟩

end KoboldKhat.Chat
