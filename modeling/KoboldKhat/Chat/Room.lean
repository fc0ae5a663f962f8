import KoboldKhat.Library.Automaton
import Mathlib.Logic.Function.Basic

/-!
# A room in which people talk

What a chat is for, apart from sockets, texts and threads. Members enter the room, introduce
themselves by a name, and from then on say things to everybody else. They can also tell something to
one member that has a name, and they leave. Everything happens at one moment and is heard at this
moment, by those it is meant for and are present then. One name, the default, is the name of those
who have not introduced themselves: to introduce oneself under it is heard and changes nothing, so
the member introduces itself again, as often as it likes, until it takes another name.

The room keeps everything that has been spoken in one order, with those who heard it. What a member
has heard is what was meant for it, in this order (`Room.heard`).
-/

set_option autoImplicit false
set_option relaxedAutoImplicit false

namespace KoboldKhat.Chat

open Library

variable {Member Name Text : Type}

/-- What a member does. -/
inductive Act (Member Name Text : Type)
  | enter (member : Member)
  | introduce (member : Member) (name : Name)
  | say (member : Member) (text : Text)
  | tell (member : Member) (recipient : Name) (text : Text)
  | leave (member : Member)

/-- The member that speaks, if the act is one of speech. -/
def Act.speaker : Act Member Name Text → Option Member
  | introduce member _ => some member
  | say member _ => some member
  | tell member _ _ => some member
  | _ => none

/-- What is heard of an act. -/
inductive Line (Name Text : Type)
  | joined (name : Name)
  | said (name : Name) (text : Text)
  | told (name : Name) (text : Text)
  | left (name : Name)

/-- The room. The default name is that of a member that has not introduced itself. -/
structure Room (Member Name Text : Type) [Inhabited Name] where
  /-- The members present, in the order in which they entered. -/
  present : List Member := []
  /-- The name of each member. -/
  name : Member → Name := fun _ ↦ default
  /-- What has been spoken, with those who heard it. -/
  spoken : List (List Member × Line Name Text) := []

namespace Room

variable [DecidableEq Member] [Inhabited Name]

/-- What a member has heard. -/
def heard (room : Room Member Name Text) (member : Member) : List (Line Name Text) :=
  (room.spoken.filter fun spoken ↦ decide (member ∈ spoken.1)).map Prod.snd

/-- The members present other than one. -/
def others (room : Room Member Name Text) (member : Member) : List Member :=
  room.present.filter fun other ↦ decide (other ≠ member)

/-- The room after something is spoken. -/
def speak (room : Room Member Name Text) (audience : List Member) (line : Line Name Text) :
    Room Member Name Text :=
  { room with spoken := room.spoken ++ [(audience, line)] }

/-- What a member has heard after something is spoken. -/
theorem heard_speak (room : Room Member Name Text) (audience : List Member) (line : Line Name Text)
    (member : Member) :
    (room.speak audience line).heard member =
      room.heard member ++ if member ∈ audience then [line] else [] := by
  unfold heard speak
  rw [List.filter_append, List.map_append]
  by_cases hmember : member ∈ audience <;> simp [hmember]

variable [DecidableEq Name]

/-- The first member present that has a name. -/
def named (room : Room Member Name Text) (name : Name) : Option Member :=
  room.present.find? fun member ↦ decide (room.name member = name)

/-- The room after a member leaves. The others hear of a member that had a name. -/
def departure (room : Room Member Name Text) (member : Member) : Room Member Name Text :=
  { (if room.name member = default then room
      else room.speak (room.others member) (.left (room.name member))) with
    present := room.present.erase member }

/-- The room after an act, if the act can be done: members enter once at a time, and only those
present do anything; they introduce themselves as long as their name is the default one, and say
something only under another name; and they can tell something only to a name that somebody present
has. -/
def step (room : Room Member Name Text) : Act Member Name Text → Option (Room Member Name Text)
  | .enter member =>
    if member ∈ room.present then none
    else some { room with present := room.present ++ [member] }
  | .introduce member name =>
    if member ∈ room.present ∧ room.name member = default then
      some ({ room with name := Function.update room.name member name }.speak room.present
        (.joined name))
    else none
  | .say member text =>
    if member ∈ room.present ∧ room.name member ≠ default then
      some (room.speak (room.others member) (.said (room.name member) text))
    else none
  | .tell member recipient text =>
    if member ∈ room.present then
      (room.named recipient).map fun receiver ↦
        room.speak [receiver] (.told (room.name member) text)
    else none
  | .leave member => if member ∈ room.present then some (room.departure member) else none

end Room

/-- The room as an automaton, empty at first. -/
def room (Member Name Text : Type) [DecidableEq Member] [DecidableEq Name] [Inhabited Name] :
    Automaton (Room Member Name Text) (Act Member Name Text) where
  initial room := room = {}
  step := Room.step

end KoboldKhat.Chat
