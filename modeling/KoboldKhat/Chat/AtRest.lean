import KoboldKhat.Chat.Windows

/-!
# Nothing is lost

What is in order at every moment is complete when nothing is on its way. If the server has read and
handled all that an application has written, and the network has not failed it, then everything its
user has typed has been spoken in the room. If an application has read all that was written to it
and its queue is empty, then everything it has heard has come into its window (`nothingLost`).
-/

set_option autoImplicit false
set_option relaxedAutoImplicit false

namespace KoboldKhat.Chat

open Library Server

/-- The server has read all that the application of a session has written, and none of it waits for
its handler. -/
def Deployment.Handled (deployment : Deployment) (session : SessionId) : Prop :=
  (delivered session deployment.events).flatten = (deployment.app session).outgoing ∧
    deployment.server.readyOf session = []

/-- The application of a session has read all that the server has written to it, and none of it is
in the hands of the reader, in a call or in the queue. -/
structure Deployment.Drained (deployment : Deployment) (session : SessionId) : Prop where
  read : (deployment.app session).received.flatten = deployment.server.outgoing session
  reader : (deployment.app session).reader = .looping ∨
    (deployment.app session).reader = .reading ∨ (deployment.app session).reader = .finished
  calls : ∀ thread, (deployment.calls session).threads thread = none
  queue : (deployment.calls session).state.deqQueue = []

/-- First parts that have all of the whole are all parts, if no part is empty. -/
theorem eq_of_flatten_eq {α : Type} {first parts : List (List α)} (hfirst : first <+: parts)
    (hsame : first.flatten = parts.flatten) (hnonempty : ∀ part ∈ parts, part ≠ []) :
    first = parts := by
  obtain ⟨later, rfl⟩ := hfirst
  rw [List.flatten_append, List.self_eq_append_right, List.flatten_eq_nil_iff] at hsame
  cases later with
  | nil => exact (List.append_nil first).symm
  | cons part later =>
    exact absurd (hsame part List.mem_cons_self)
      (hnonempty part (List.mem_append_right first List.mem_cons_self))

section AtRest

variable {strtod : Bytes → Double} {toChars : Double → Bytes} {network : Network}
  {deployment : Deployment} {system : System} {session : SessionId}

/-- If the server has handled all that a client has written, which is connected, it has handled all
messages that the client was given to send. -/
theorem callsFrom_eq_said (hreachable : (chat strtod toChars network).Reachable system)
    (halive : system.fault = none) {client : Client.State}
    (hclient : system.client session = some client) (hconnected : client.connected = true)
    (hread : (delivered session system.events).flatten = system.outgoing session)
    (hready : system.server.readyOf session = []) :
    system.server.callsFrom session =
      (system.said session).map fun message ↦ .ok (message, system.name session) := by
  have hconsistent := consistent_of_reachable hreachable
  obtain ⟨maxClients, hends⟩ := hconsistent.served.ends
  obtain ⟨written, hwrote⟩ := hconsistent.wrote session client hclient
  obtain ⟨rfl, hstream⟩ := hwrote.whole hconnected
  have hname : system.name session = client.username := by
    rw [System.name, hclient]
    rfl
  have hdelivered := hends.delivered_eq session
  rw [Registry.readyChunks, hready, List.flatMap_nil, List.append_nil] at hdelivered
  have houtgoing : system.outgoing session = client.outgoing := by
    rw [System.outgoing, hclient]
    rfl
  rw [hdelivered, houtgoing, hstream, ← hname] at hread
  have hnonempty : ∀ chunk ∈ chunksRead session system.events, chunk ≠ [] := by
    rintro chunk hmember rfl
    cases (hends.chunksRead_length session [] hmember).1
  have hvalid : ∀ message ∈ system.said session, IsUtf8 (system.name session) ∧ IsUtf8 message :=
    hname ▸ hwrote.valid
  rw [hends.callsFrom rfl rfl session]
  rcases (@apart_documents strtod _ _ hvalid).split hnonempty
    (hread ▸ List.prefix_rfl) with hall | ⟨whole, chunk, later, hchunks, -, hrejected⟩
  · have hdocuments := eq_of_flatten_eq hall hread fun text htext ↦ by
      obtain ⟨message, -, rfl⟩ := List.mem_map.mp htext
      exact List.ne_nil_of_mem (List.mem_of_head? (Parser.document_head _ message))
    rw [hdocuments, flatMap_chunkCall_documents hvalid]
  · obtain ⟨-, hfault⟩ := hconsistent.served.last_of_error hchunks hrejected
    cases halive.symm.trans hfault

/-- If nothing is in the hands of a thread or in the queue, which was never over its limit, what was
read is shown. -/
theorem receivedTexts_eq_received {dump : Json → Option Bytes} {established : Bool}
    {app : Client.App} {calls : Client.Calls} (hreaches : Client.Reaches dump established app calls)
    (hlimit : ∀ look ∈ app.looks, look.2 ≤ Client.queueLimit)
    (hreader : app.reader = .looping ∨ app.reader = .reading ∨ app.reader = .finished)
    (hcalls : ∀ thread, calls.threads thread = none) (hqueue : calls.state.deqQueue = []) :
    Client.receivedTexts app.messages = app.received := by
  obtain ⟨queue, htracks, -, horderly⟩ := hreaches.exists_orderly
  have hwindow := htracks.idle (hcalls .window)
  have hidle := htracks.idle (hcalls .reader)
  have hitems := htracks.items.trans hqueue
  have hkept := horderly.kept
  have hlooked := horderly.looked
  have hview : (app.view queue).reader = app.reader := Client.view_reader hidle
  have hnothing : (app.view queue).unchecked = [] ∧ (app.view queue).unpushed = [] := by
    unfold Client.State.unchecked Client.State.unpushed
    rw [hview]
    rcases hreader with hreader | hreader | hreader <;> rw [hreader] <;> exact ⟨rfl, rfl⟩
  have hpushed : (app.view queue).pushed = Client.receivedTexts app.messages := by
    simp only [Client.App.view, Client.App.taken, hwindow, hitems, Client.handed, List.append_nil]
  rw [hnothing.2, hpushed, admitted_eq_of_limit hlimit, List.append_nil] at hkept
  rw [hnothing.1, List.append_nil] at hlooked
  exact hkept.trans hlooked

/-- As long as the server lives, nothing is lost between the users, in whatever order the server and
the threads of all applications have taken their steps: there is a room in which each has said all
that it has typed, if the server has handled what its application has written and the network has
not failed it; and everything it has heard there has come into its window, if the application has
read and taken out all that was written to it, no write to it failed and its queue was never over
its limit. -/
theorem nothingLost (hreachable : deployment.Reachable strtod toChars network)
    (halive : deployment.fault = none) :
    ∃ acts room, (Chat.room SessionId Bytes Bytes).run acts {} = some room ∧
      Represents room deployment.server ∧
      ∀ session,
        ((deployment.app session).screen ≠ .connecting →
          (deployment.app session).networkFailed = false → deployment.Handled session →
          spokenBy session acts = actsOf session []
            (((deployment.app session).username ::
              Client.ownTexts (deployment.app session).messages).map
                fun message ↦ .ok (message, (deployment.app session).username))) ∧
        (deployment.server.WritesReturned session →
          (∀ look ∈ (deployment.app session).looks, look.2 ≤ 250) → deployment.Drained session →
          (Client.receivedTexts (deployment.app session).messages).flatten =
            ((room.heard session).map render).flatten) := by
  obtain ⟨system, hsystem, hpictures⟩ := exists_picture hreachable
  have hlives : system.fault = none := hpictures.fault.trans halive
  have hconsistent := consistent_of_reachable hsystem
  have hserved := hconsistent.served
  rw [hlives] at hserved
  cases hserved with
  | alive run =>
    obtain ⟨acts, room, hroom, hrepresents, hspoken⟩ := refinesRoom run hconsistent.ofMain
    refine ⟨acts, room, hroom, hpictures.server ▸ hrepresents, fun session ↦ ?_⟩
    obtain ⟨queue, -, hfits, hclient, hsaid⟩ := hpictures.clients session
    have hreaches := reaches_of_reachable hreachable session
    refine ⟨fun hchatting hnetwork hhandled ↦ ?_, fun hreturned hlimit hdrained ↦ ?_⟩
    · rw [if_neg hchatting] at hclient
      have hsends := hreaches.sends
      have hname : system.name session = (deployment.app session).username := by
        rw [System.name, hclient]
        rfl
      have hread : (delivered session system.events).flatten = system.outgoing session := by
        rw [hpictures.events, hpictures.outgoing session]
        exact hhandled.1
      have hready : system.server.readyOf session = [] := hpictures.server ▸ hhandled.2
      rw [hspoken session, callsFrom_eq_said hsystem hlives hclient
        (hsends.connected hchatting hnetwork) hread hready, hsaid, hname, hsends.given hchatting]
      rfl
    · have hshown := receivedTexts_eq_received hreaches hlimit hdrained.reader hdrained.calls
        hdrained.queue
      rw [hshown, hdrained.read, ← hpictures.server]
      exact outgoing_eq_heard run hrepresents (hpictures.server ▸ hreturned)

end AtRest

/-- Ann has said her name, and has heard of it. -/
theorem nothingLost_welcomed :
    ∃ calls, (welcomed calls).Reachable (fun _ ↦ 0) (fun _ ↦ []) reliable ∧
      (welcomed calls).fault = none ∧ (welcomed calls).Handled 0 ∧
      (welcomed calls).Drained 0 ∧
      ∃ acts room, (Chat.room SessionId Bytes Bytes).run acts {} = some room ∧
        Represents room (welcomed calls).server ∧
        ∀ session,
          (((welcomed calls).app session).screen ≠ .connecting →
            ((welcomed calls).app session).networkFailed = false →
            (welcomed calls).Handled session →
            spokenBy session acts = actsOf session []
              ((((welcomed calls).app session).username ::
                Client.ownTexts ((welcomed calls).app session).messages).map
                  fun message ↦ .ok (message, ((welcomed calls).app session).username))) ∧
          ((welcomed calls).server.WritesReturned session →
            (∀ look ∈ ((welcomed calls).app session).looks, look.2 ≤ 250) →
            (welcomed calls).Drained session →
            (Client.receivedTexts ((welcomed calls).app session).messages).flatten =
              ((room.heard session).map render).flatten) := by
  obtain ⟨calls, hreachable, hcalls, hqueue⟩ := reachable_welcomed
  have hlives : joined.fault = none := by decide
  have hhandled : (welcomed calls).Handled 0 := by
    have hread : (delivered 0 joined.events).flatten =
        (announced .looping .draining [.received announcement]).outgoing := by decide
    have hready : joined.server.readyOf 0 = [] := by decide
    exact ⟨hread, hready⟩
  have hdrained : (welcomed calls).Drained 0 := by
    have hread : [announcement].flatten = joined.server.outgoing 0 := by decide
    exact ⟨hread, Or.inl rfl, hcalls, hqueue⟩
  exact ⟨calls, hreachable, hlives, hhandled, hdrained, nothingLost hreachable hlives⟩

end KoboldKhat.Chat
