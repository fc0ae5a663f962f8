import KoboldKhat.Client.State
import Mathlib.Data.List.Basic

/-!
# What the reader pushes

The reader of a client turns every chunk it reads into one entry of the queue, unless the queue is
over its limit. So while the queue stays within the limit, the chunks pushed so far, with the one in
the reader's hands, are the chunks read so far (`Run.received`), whatever the window does meanwhile.
-/

set_option autoImplicit false
set_option relaxedAutoImplicit false

namespace KoboldKhat.Client

/-- The queue is within its limit. -/
def State.WithinLimit (state : State) : Prop :=
  state.queue.length ≤ queueLimit

/-- The chunks read fit the buffer, and are those pushed and the one in the reader's hands. -/
structure State.Received (state : State) : Prop where
  fits : ∀ chunk ∈ state.received, 1 ≤ chunk.length ∧ chunk.length ≤ 1024
  pushed : state.pushed ++ state.pending = state.received

section Steps

variable {dump : Json → Option Bytes} {state after first last : State}

/-- Sending leaves the receiving side alone. -/
theorem sendMessage_frame (dump : Json → Option Bytes) (answer : WriteAnswer) (message : Bytes)
    (state : State) :
    (sendMessage dump answer message state).received = state.received ∧
      (sendMessage dump answer message state).pushed = state.pushed ∧
      (sendMessage dump answer message state).reader = state.reader := by
  unfold sendMessage
  split_ifs
  · cases dump (envelope state.username message) with
    | none => exact ⟨rfl, rfl, rfl⟩
    | some document => exact ⟨rfl, rfl, rfl⟩
  · exact ⟨rfl, rfl, rfl⟩

/-- A step that touches neither the chunks read, the chunks pushed nor the reader keeps what was
received. -/
theorem State.Received.of_eq (hreceived : state.Received) (hsame : after.received = state.received)
    (hpushed : after.pushed = state.pushed) (hpending : after.pending = state.pending) :
    after.Received where
  fits := hsame ▸ hreceived.fits
  pushed := by rw [hpushed, hpending, hsame, hreceived.pushed]

theorem pending_of_reader (hreader : after.reader = state.reader) :
    after.pending = state.pending := by
  unfold State.pending
  rw [hreader]

/-- Within the limit, every step keeps what was received. -/
theorem step_received (hreceived : state.Received) (hlimit : state.WithinLimit) {event : Event}
    (hstep : step dump state event = some after) : after.Received := by
  cases stepped_of_step hstep with
  | await looping connected =>
    refine hreceived.of_eq rfl rfl ?_
    simp only [State.pending, looping]
  | leave looping =>
    refine hreceived.of_eq rfl rfl ?_
    simp only [State.pending, looping]
  | readError reading =>
    refine hreceived.of_eq rfl rfl ?_
    simp only [State.pending, reading]
  | readData message reading fits =>
    refine ⟨fun chunk hmember ↦ ?_, ?_⟩
    · rcases List.mem_append.mp hmember with hold | hnew
      · exact hreceived.fits chunk hold
      · rw [List.mem_singleton.mp hnew]
        exact fits
    · have hpushed := hreceived.pushed
      simp only [State.pending, reading, List.append_nil] at hpushed
      simp only [State.pending, hpushed]
  | refuse message checking full => exact absurd hlimit (Nat.not_le.mpr full)
  | pass message checking room =>
    refine hreceived.of_eq rfl rfl ?_
    simp only [State.pending, checking]
  | pushBack message pushing =>
    refine ⟨hreceived.fits, ?_⟩
    have hpushed := hreceived.pushed
    simp only [State.pending, pushing] at hpushed
    simp only [State.pending, List.append_nil, hpushed]
  | seeEmpty empty => exact hreceived.of_eq rfl rfl rfl
  | seeMessage nonempty => exact hreceived.of_eq rfl rfl rfl
  | popFront message queue popping first => exact hreceived.of_eq rfl rfl rfl
  | send message answer =>
    obtain ⟨hsame, hpushed, hreader⟩ := sendMessage_frame dump answer message state
    exact hreceived.of_eq hsame hpushed (pending_of_reader hreader)

/-- While the queue stays within its limit, what was read is pushed or in the reader's hands. -/
theorem Run.received (hrun : Run dump State.WithinLimit first last) (hfirst : first.Received) :
    last.Received := by
  have hboth : last.Received ∧ last.WithinLimit := by
    induction hrun with
    | nil start => exact ⟨hfirst, start⟩
    | snoc event run steps stays ih => exact ⟨step_received ih.1 ih.2 steps, stays⟩
  exact hboth.1

/-- The state after the reader has read a chunk and pushed it. -/
def State.take (state : State) (chunk : Bytes) : State :=
  { state with
    queue := state.queue ++ [chunk]
    received := state.received ++ [chunk]
    pushed := state.pushed ++ [chunk] }

/-- A connected reader at the head of its loop can read a chunk and push it. -/
theorem Run.take (hrun : Run dump State.WithinLimit first last) (hlooping : last.reader = .looping)
    (hconnected : last.connected = true) {chunk : Bytes}
    (hlength : 1 ≤ chunk.length ∧ chunk.length ≤ 1024) (hlimit : last.queue.length < queueLimit) :
    Run dump State.WithinLimit first (last.take chunk) := by
  have hwithin : last.WithinLimit := Nat.le_of_lt hlimit
  have htest : step dump last .testConnected = some { last with reader := .reading } := by
    simp only [step, if_pos hlooping, if_pos hconnected]
  have hread : step dump { last with reader := .reading } (.readSome (.data chunk)) =
      some { last with reader := .checking chunk, received := last.received ++ [chunk] } := by
    simp only [step]
    exact if_pos ⟨trivial, hlength⟩
  have hcheck : step dump
      { last with reader := .checking chunk, received := last.received ++ [chunk] } .checkSize =
      some { last with reader := .pushing chunk, received := last.received ++ [chunk] } := by
    simp only [step, if_neg (Nat.not_lt.mpr hwithin)]
  have hpush : step dump
      { last with reader := .pushing chunk, received := last.received ++ [chunk] } .pushBack =
      some (last.take chunk) := by
    simp only [step, State.take, hlooping]
  have hchecked := ((hrun.snoc _ htest hwithin).snoc _ hread hwithin).snoc _ hcheck hwithin
  refine hchecked.snoc _ hpush ?_
  show (last.queue ++ [chunk]).length ≤ queueLimit
  rw [List.length_append, List.length_singleton]
  exact hlimit

/-- A client that has just connected has received nothing. -/
theorem received_start (username : Bytes) : ({ username } : State).Received where
  fits := nofun
  pushed := rfl

end Steps

end KoboldKhat.Client
