import KoboldKhat.Library.Interleaving
import Mathlib.Data.List.Basic

/-!
# What a run does, moment by moment

`exec` gives the end of a run of a program by one thread. `Semantics.trace` gives what the run did
on the way: one `Moment` for each operation and for each procedure call, in their order, with the
state in which it happened and the calls that had not returned then.

Two facts about every trace carry the developments on top. `trace_linked`: each moment starts in
the state the moment before it led to, and the run ends in the state the last one led to.
`Records.trace`: a program that keeps a discipline keeps, at every moment, an invariant of all that
has happened before. The discipline may depend on the calls that have not returned.
-/

set_option autoImplicit false
set_option relaxedAutoImplicit false

namespace KoboldKhat.Library

/-- What a run does at one moment: it performs an operation, or calls a procedure. -/
inductive Action (signature : Signature) : Type
  | perform (operation : signature.Operation)
  | call (procedure : signature.Procedure)

/-- One moment of a run. -/
structure Moment (signature : Signature) (σ : Type) where
  /-- The calls that have not returned, the innermost first. -/
  callers : List signature.Procedure
  /-- What is done. -/
  action : Action signature
  /-- The state in which it is done. -/
  state : σ

/-- The list that a run which returned is continued with; a stopped run has none. -/
def Outcome.collect {ε σ α β : Type} : Outcome ε σ α → (α → σ → List β) → List β
  | .returned value state, rest => rest value state
  | .stopped _ _, _ => []

/-! ### Lists with a past -/

section Past

variable {α β : Type}

/-- Each element of a list has a property that may depend on the elements before it, those of a past
included. -/
def Justified (justified : List α → α → Prop) : List α → List α → Prop
  | _, [] => True
  | past, element :: later => justified past element ∧ Justified justified (past ++ [element]) later

variable {justified : List α → α → Prop} {past : List α}

theorem justified_append {first second : List α} :
    Justified justified past (first ++ second) ↔
      Justified justified past first ∧ Justified justified (past ++ first) second := by
  induction first generalizing past with
  | nil => simp [Justified]
  | cons element first ih => simp [Justified, ih, and_assoc]

/-- What is justified by the past is justified where it stands. -/
theorem Justified.at {elements earlier later : List α} {element : α}
    (hjustified : Justified justified past elements)
    (hsplit : elements = earlier ++ element :: later) : justified (past ++ earlier) element := by
  rw [hsplit] at hjustified
  exact (justified_append.mp hjustified).2.1

/-- The images of justified elements are justified by the images of their past. -/
theorem Justified.map {weaker : List β → β → Prop} {elements : List α} {image : α → β}
    {before : List β} (hjustified : Justified justified past elements)
    (hweaker : ∀ past element, justified past element →
      weaker (before ++ past.map image) (image element)) :
    Justified weaker (before ++ past.map image) (elements.map image) := by
  induction elements generalizing past with
  | nil => trivial
  | cons element later ih =>
    refine ⟨hweaker past element hjustified.1, ?_⟩
    have hlater := ih hjustified.2
    rw [List.map_append, ← List.append_assoc] at hlater
    exact hlater

end Past

section Trace

variable {signature : Signature} {σ α β : Type}

/-- What a program does, with the effects of operations and calls given, and with what happens
inside a call given. -/
def Program.trace
    (perform : (operation : signature.Operation) → σ →
      Outcome signature.Fault σ (signature.Reply operation))
    (enter : signature.Procedure → σ → Outcome signature.Fault σ Unit)
    (inside : signature.Procedure → σ → List (Moment signature σ))
    (callers : List signature.Procedure) : Program signature α → σ → List (Moment signature σ)
  | .done _, _ => []
  | .fault _, _ => []
  | .act operation next, state => ⟨callers, .perform operation, state⟩ ::
      (perform operation state).collect fun reply after ↦
        (next reply).trace perform enter inside callers after
  | .call procedure next, state => ⟨callers, .call procedure, state⟩ ::
      (inside procedure state ++ (enter procedure state).collect fun _ after ↦
        next.trace perform enter inside callers after)

namespace Semantics

variable (semantics : Semantics signature σ)

/-- What happens inside a procedure call under a bound on nested calls. -/
def traceCall : ℕ → List signature.Procedure → signature.Procedure → σ →
    List (Moment signature σ)
  | 0, _, _, _ => []
  | depth + 1, callers, procedure, state =>
    (semantics.body procedure).trace semantics.perform (semantics.enter depth)
      (traceCall depth (procedure :: callers)) (procedure :: callers) state

/-- What a run of a program does, under a bound on nested calls and inside the given calls. -/
def trace (depth : ℕ) (callers : List signature.Procedure) (program : Program signature α)
    (state : σ) : List (Moment signature σ) :=
  program.trace semantics.perform (semantics.enter depth) (semantics.traceCall depth callers)
    callers state

variable {semantics} (depth : ℕ) (callers : List signature.Procedure) (state : σ)

@[simp] theorem trace_pure (value : α) :
    semantics.trace depth callers (pure value) state = [] :=
  rfl

@[simp] theorem trace_fault (reason : signature.Fault) :
    semantics.trace depth callers (.fault reason : Program signature α) state = [] :=
  rfl

/-- An operation is one moment. -/
@[simp] theorem trace_perform (operation : signature.Operation) :
    semantics.trace depth callers (Program.perform operation) state =
      [⟨callers, .perform operation, state⟩] := by
  show _ :: (semantics.perform operation state).collect _ = _
  cases semantics.perform operation state <;> rfl

/-- A call at bound zero is one moment. -/
@[simp] theorem trace_invoke_zero (procedure : signature.Procedure) :
    semantics.trace 0 callers (Program.invoke procedure) state =
      [⟨callers, .call procedure, state⟩] :=
  rfl

/-- A call is followed by what its body does. -/
theorem trace_invoke_succ (procedure : signature.Procedure) :
    semantics.trace (depth + 1) callers (Program.invoke procedure) state =
      ⟨callers, .call procedure, state⟩ ::
        semantics.trace depth (procedure :: callers) (semantics.body procedure) state := by
  show _ :: (semantics.trace depth (procedure :: callers) (semantics.body procedure) state ++
    (semantics.enter (depth + 1) procedure state).collect fun _ _ ↦ []) = _
  cases semantics.enter (depth + 1) procedure state <;> simp [Outcome.collect]

/-- A sequence does what its first part does, and then, if that returned, what the rest does. -/
theorem trace_bind (program : Program signature α) (continuation : α → Program signature β) :
    semantics.trace depth callers (program >>= continuation) state =
      semantics.trace depth callers program state ++
        (semantics.exec depth program state).collect fun value after ↦
          semantics.trace depth callers (continuation value) after := by
  rw [Program.bind_eq]
  induction program generalizing state with
  | done value => rfl
  | fault reason => rfl
  | act operation next ih =>
    show _ :: (semantics.perform operation state).collect _ =
      _ :: (semantics.perform operation state).collect _ ++
        ((semantics.perform operation state).bind _).collect _
    cases semantics.perform operation state with
    | returned reply after => exact congrArg (_ :: ·) (ih reply after)
    | stopped reason after => rfl
  | call procedure next ih =>
    show _ :: (_ ++ (semantics.enter depth procedure state).collect _) =
      _ :: (_ ++ (semantics.enter depth procedure state).collect _) ++
        ((semantics.enter depth procedure state).bind _).collect _
    rw [List.cons_append, List.append_assoc]
    congr 2
    cases semantics.enter depth procedure state with
    | returned reply after => exact ih after
    | stopped reason after => rfl

/-! ### What is observed on the way -/

section Observes

variable {ω : Type}

variable (semantics) in
/-- A program returns a value in a state, and an observer sees this of it on the way. -/
def Observes (observe : Moment signature σ → Option ω) (program : Program signature α) (value : α)
    (seen : List ω) (after : σ) : Prop :=
  semantics.exec depth program state = .returned value after ∧
    (semantics.trace depth callers program state).filterMap observe = seen

variable {depth callers state} {observe : Moment signature σ → Option ω} {seen later : List ω}
  {middle after : σ}

theorem observes_pure (value : α) :
    semantics.Observes depth callers state observe (pure value) value [] state :=
  ⟨rfl, rfl⟩

/-- Of a sequence is seen what is seen of its parts. -/
theorem Observes.bind {first : Program signature α} {rest : α → Program signature β} {value : α}
    {result : β} (hfirst : semantics.Observes depth callers state observe first value seen middle)
    (hrest : semantics.Observes depth callers middle observe (rest value) result later after) :
    semantics.Observes depth callers state observe (first >>= rest) result (seen ++ later)
      after := by
  obtain ⟨hexec, hseen⟩ := hfirst
  obtain ⟨hexecRest, hlater⟩ := hrest
  constructor
  · rw [exec_bind, hexec]
    exact hexecRest
  · rw [trace_bind, hexec, Outcome.collect, List.filterMap_append, hseen, hlater]

/-- Of an operation is seen what its moment shows. -/
theorem observes_perform {operation : signature.Operation} {reply : signature.Reply operation}
    (hperform : semantics.perform operation state = .returned reply after) :
    semantics.Observes depth callers state observe (Program.perform operation) reply
      (observe ⟨callers, .perform operation, state⟩).toList after := by
  constructor
  · rw [exec_perform]
    exact hperform
  · rw [trace_perform, List.filterMap_cons]
    cases observe ⟨callers, .perform operation, state⟩ <;> rfl

/-- Of a call is seen what its moment shows, and then what is seen of its body. -/
theorem Observes.call {procedure : signature.Procedure}
    (hbody : semantics.Observes depth (procedure :: callers) state observe
      (semantics.body procedure) () seen after) :
    semantics.Observes (depth + 1) callers state observe (Program.invoke procedure) ()
      ((observe ⟨callers, .call procedure, state⟩).toList ++ seen) after := by
  obtain ⟨hexec, hseen⟩ := hbody
  constructor
  · rw [exec_invoke_succ]
    exact hexec
  · rw [trace_invoke_succ, List.filterMap_cons, hseen]
    cases observe ⟨callers, .call procedure, state⟩ <;> rfl

end Observes

/-- Everything a program does is inside the calls it is made in, if that is so inside its calls. -/
theorem program_callers {perform : (operation : signature.Operation) → σ →
      Outcome signature.Fault σ (signature.Reply operation)}
    {enter : signature.Procedure → σ → Outcome signature.Fault σ Unit}
    {inside : signature.Procedure → σ → List (Moment signature σ)}
    (hcalls : ∀ procedure state, ∀ moment ∈ inside procedure state, callers <:+ moment.callers)
    (program : Program signature α) :
    ∀ moment ∈ program.trace perform enter inside callers state, callers <:+ moment.callers := by
  have hcollect : ∀ {δ : Type} (outcome : Outcome signature.Fault σ δ)
      (rest : δ → σ → List (Moment signature σ)),
      (∀ value after, ∀ moment ∈ rest value after, callers <:+ moment.callers) →
      ∀ moment ∈ outcome.collect rest, callers <:+ moment.callers := by
    intro δ outcome rest hrest
    cases outcome with
    | returned value after => exact hrest value after
    | stopped reason after => exact fun _ hmoment ↦ nomatch hmoment
  induction program generalizing state with
  | done value => exact fun _ hmoment ↦ nomatch hmoment
  | fault reason => exact fun _ hmoment ↦ nomatch hmoment
  | act operation next ih =>
    refine List.forall_mem_cons.mpr ⟨List.suffix_rfl, ?_⟩
    exact hcollect _ _ fun reply after ↦ ih reply after
  | call procedure next ih =>
    refine List.forall_mem_cons.mpr ⟨List.suffix_rfl, ?_⟩
    refine List.forall_mem_append.mpr ⟨hcalls procedure state, ?_⟩
    exact hcollect _ _ fun _ after ↦ ih after

/-- Everything a call does is inside the call. -/
theorem call_callers (procedure : signature.Procedure) :
    ∀ moment ∈ semantics.traceCall depth callers procedure state,
      procedure :: callers <:+ moment.callers := by
  induction depth generalizing callers procedure state with
  | zero => exact fun _ hmoment ↦ nomatch hmoment
  | succ depth ih =>
    exact program_callers _ state (fun callee after moment hmoment ↦
      (List.suffix_cons callee _).trans (ih (procedure :: callers) after callee moment hmoment)) _

/-- Everything a run does is inside the calls it is made in. -/
theorem trace_callers (program : Program signature α) :
    ∀ moment ∈ semantics.trace depth callers program state, callers <:+ moment.callers :=
  program_callers callers state (fun procedure after moment hmoment ↦
    (List.suffix_cons procedure callers).trans
      (call_callers depth callers after procedure moment hmoment)) program

/-! ### The states on the way -/

/-- The moments lead from one state to another: each starts in the state the one before it led to,
and a call leads to the state it is made in. -/
inductive Linked (semantics : Semantics signature σ) :
    σ → List (Moment signature σ) → σ → Prop
  | nil (state : σ) : Linked semantics state [] state
  | perform {callers : List signature.Procedure} {operation : signature.Operation}
      {state final : σ} {rest : List (Moment signature σ)}
      (linked : Linked semantics (semantics.perform operation state).state rest final) :
      Linked semantics state (⟨callers, .perform operation, state⟩ :: rest) final
  | call {callers : List signature.Procedure} {procedure : signature.Procedure}
      {state final : σ} {rest : List (Moment signature σ)}
      (linked : Linked semantics state rest final) :
      Linked semantics state (⟨callers, .call procedure, state⟩ :: rest) final

/-- Moments that lead on from where others led to. -/
theorem Linked.append {first middle last : σ} {earlier later : List (Moment signature σ)}
    (hearlier : Linked semantics first earlier middle)
    (hlater : Linked semantics middle later last) :
    Linked semantics first (earlier ++ later) last := by
  induction hearlier with
  | nil => exact hlater
  | perform linked ih => exact .perform (ih hlater)
  | call linked ih => exact .call (ih hlater)

/-- What a program does leads from its first state to its last one, if what its calls do does. -/
theorem program_linked {enter : signature.Procedure → σ → Outcome signature.Fault σ Unit}
    {inside : signature.Procedure → σ → List (Moment signature σ)}
    (hcalls : ∀ procedure state,
      Linked semantics state (inside procedure state) (enter procedure state).state)
    (program : Program signature α) :
    Linked semantics state (program.trace semantics.perform enter inside callers state)
      (program.run semantics.perform enter state).state := by
  induction program generalizing state with
  | done value => exact .nil state
  | fault reason => exact .nil state
  | act operation next ih =>
    refine .perform ?_
    simp only [Program.run]
    cases semantics.perform operation state with
    | returned reply after => exact ih reply after
    | stopped reason after => exact .nil after
  | call procedure next ih =>
    refine .call ((hcalls procedure state).append ?_)
    simp only [Program.run]
    cases enter procedure state with
    | returned reply after => exact ih after
    | stopped reason after => exact .nil after

/-- What a call does leads from the state it is made in to the state it ends in. -/
theorem call_linked (procedure : signature.Procedure) :
    Linked semantics state (semantics.traceCall depth callers procedure state)
      (semantics.enter depth procedure state).state := by
  induction depth generalizing callers procedure state with
  | zero => exact .nil state
  | succ depth ih =>
    exact program_linked _ state (fun callee after ↦ ih (procedure :: callers) after callee) _

/-- What a run does leads from its first state to its last one. -/
theorem trace_linked (program : Program signature α) :
    Linked semantics state (semantics.trace depth callers program state)
      (semantics.exec depth program state).state :=
  program_linked callers state (fun procedure after ↦ call_linked depth callers after procedure)
    program

/-- What every operation preserves, every program preserves, whether it returns or stops. -/
theorem exec_preserves {invariant : σ → Prop}
    (hperform : ∀ operation {before}, invariant before →
      invariant (semantics.perform operation before).state)
    (program : Program signature α) (hstate : invariant state) :
    invariant (semantics.exec depth program state).state := by
  have hlinked := @trace_linked _ _ _ semantics depth [] state program
  generalize (semantics.exec depth program state).state = final at hlinked ⊢
  generalize semantics.trace depth [] program state = moments at hlinked
  induction hlinked with
  | nil => exact hstate
  | perform linked ih => exact ih (hperform _ hstate)
  | call linked ih => exact ih hstate

/-! ### Histories -/

variable {callers state} {past : List (Moment signature σ)}

/-- What a discipline permits in a context: an allowed operation, or a call. -/
def Permits {γ : Type} (discipline : Discipline signature γ) (context : γ) :
    Action signature → Prop
  | .perform operation => discipline.allowed context operation
  | .call procedure => discipline.before procedure context

/-- Disciplines for the code inside each list of calls, with an invariant of the past, the state and
the context that is kept by whatever they permit. -/
structure Records {γ : Type} (semantics : Semantics signature σ)
    (disciplines : List signature.Procedure → Discipline signature γ)
    (invariant : List (Moment signature σ) → σ → γ → Prop) : Prop where
  /-- An allowed operation keeps the invariant, in the next context if it replies. -/
  reply : ∀ {past state context callers operation}, invariant past state context →
    (disciplines callers).allowed context operation →
    (semantics.perform operation state).Satisfies
      (fun value after ↦ ∃ next, (disciplines callers).next context operation value = some next ∧
        invariant (past ++ [⟨callers, .perform operation, state⟩]) after next)
      (fun _ after ↦ ∃ next, invariant (past ++ [⟨callers, .perform operation, state⟩]) after next)
  /-- A call keeps the invariant in the context its body starts in. -/
  call : ∀ {past state context callers procedure}, invariant past state context →
    (disciplines callers).before procedure context →
    invariant (past ++ [⟨callers, .call procedure, state⟩]) state
      ((disciplines callers).called procedure context)
  /-- The bodies of the procedures keep the disciplines of the code inside them. -/
  body : ∀ {callers procedure context}, (disciplines callers).before procedure context →
    (disciplines (procedure :: callers)).Ok (semantics.body procedure)
      ((disciplines callers).called procedure context)
      fun _ final ↦ (disciplines callers).after procedure context final

section Records

variable {γ : Type} {disciplines : List signature.Procedure → Discipline signature γ}
  {invariant : List (Moment signature σ) → σ → γ → Prop} {context : γ}

/-- A moment that happens in a context which goes with its past and its state, and which permits
it. -/
def Permitted (disciplines : List signature.Procedure → Discipline signature γ)
    (invariant : List (Moment signature σ) → σ → γ → Prop) (past : List (Moment signature σ))
    (moment : Moment signature σ) : Prop :=
  ∃ context, invariant past moment.state context ∧
    Permits (disciplines moment.callers) context moment.action

/-- The moments are permitted, and the run they belong to ends in a context that goes with them: one
with a property if it returned. -/
structure Kept (disciplines : List signature.Procedure → Discipline signature γ)
    (invariant : List (Moment signature σ) → σ → γ → Prop)
    (past moments : List (Moment signature σ)) (outcome : Outcome signature.Fault σ α)
    (post : α → γ → Prop) : Prop where
  permitted : Justified (Permitted disciplines invariant) past moments
  ends : outcome.Satisfies
    (fun value after ↦ ∃ final, post value final ∧ invariant (past ++ moments) after final)
    (fun _ after ↦ ∃ final, invariant (past ++ moments) after final)

/-- What was kept up to a return, and from there to the end, is kept. -/
theorem Kept.bind {first : List (Moment signature σ)} {outcome : Outcome signature.Fault σ α}
    {middle : α → γ → Prop} {rest : α → σ → List (Moment signature σ)}
    {continuation : α → σ → Outcome signature.Fault σ β} {post : β → γ → Prop}
    (hfirst : Kept disciplines invariant past first outcome middle)
    (hrest : ∀ value after final, middle value final → invariant (past ++ first) after final →
      Kept disciplines invariant (past ++ first) (rest value after) (continuation value after)
        post) :
    Kept disciplines invariant past (first ++ outcome.collect rest) (outcome.bind continuation)
      post := by
  obtain ⟨hpermitted, hends⟩ := hfirst
  cases outcome with
  | returned value after =>
    obtain ⟨final, hmiddle, hinvariant⟩ := hends
    obtain ⟨hlater, hends⟩ := hrest value after final hmiddle hinvariant
    refine ⟨justified_append.mpr ⟨hpermitted, hlater⟩, ?_⟩
    simp only [Outcome.collect, Outcome.bind_returned, ← List.append_assoc]
    exact hends
  | stopped reason after =>
    simp only [Outcome.collect, List.append_nil, Outcome.bind_stopped]
    exact ⟨hpermitted, hends⟩

/-- A program that keeps its discipline keeps the invariant, if what its calls do does. -/
theorem Records.program (hrecords : Records semantics disciplines invariant)
    {enter : signature.Procedure → σ → Outcome signature.Fault σ Unit}
    {inside : signature.Procedure → σ → List (Moment signature σ)}
    (hcalls : ∀ {past state context procedure}, invariant past state context →
      (disciplines callers).before procedure context →
      Kept disciplines invariant (past ++ [⟨callers, .call procedure, state⟩])
        (inside procedure state) (enter procedure state)
        fun _ final ↦ (disciplines callers).after procedure context final)
    {program : Program signature α} {post : α → γ → Prop}
    (hok : (disciplines callers).Ok program context post)
    (hinvariant : invariant past state context) :
    Kept disciplines invariant past (program.trace semantics.perform enter inside callers state)
      (program.run semantics.perform enter state) post := by
  induction program generalizing past state context with
  | done value => exact ⟨trivial, context, hok, by rwa [Program.trace, List.append_nil]⟩
  | fault reason => exact ⟨trivial, context, by rwa [Program.trace, List.append_nil]⟩
  | act operation next ih =>
    have hhead : Kept disciplines invariant past [⟨callers, .perform operation, state⟩]
        (semantics.perform operation state) fun reply final ↦
          (disciplines callers).Ok (next reply) final post := by
      refine ⟨⟨⟨context, hinvariant, hok.1⟩, trivial⟩, ?_⟩
      refine (hrecords.reply hinvariant hok.1).mono ?_ fun _ _ hstop ↦ hstop
      rintro reply after ⟨final, hnext, hafter⟩
      exact ⟨final, hok.2 reply final hnext, hafter⟩
    exact hhead.bind fun reply after final hnext hafter ↦ ih reply hnext hafter
  | call procedure next ih =>
    have hhead : Kept disciplines invariant past
        (⟨callers, .call procedure, state⟩ :: inside procedure state) (enter procedure state)
          fun _ final ↦ (disciplines callers).Ok next final post := by
      obtain ⟨hpermitted, hends⟩ := hcalls hinvariant hok.1
      rw [List.append_assoc, List.singleton_append] at hends
      refine ⟨⟨⟨context, hinvariant, hok.1⟩, hpermitted⟩, hends.mono ?_ fun _ _ hstop ↦ hstop⟩
      rintro value after ⟨final, hfinal, hafter⟩
      exact ⟨final, hok.2 final hfinal, hafter⟩
    exact hhead.bind fun value after final hnext hafter ↦ ih hnext hafter

/-- A call that a discipline permits keeps the invariant. -/
theorem Records.called (hrecords : Records semantics disciplines invariant) (depth : ℕ)
    {procedure : signature.Procedure} (hinvariant : invariant past state context)
    (hbefore : (disciplines callers).before procedure context) :
    Kept disciplines invariant (past ++ [⟨callers, .call procedure, state⟩])
      (semantics.traceCall depth callers procedure state) (semantics.enter depth procedure state)
      fun _ final ↦ (disciplines callers).after procedure context final := by
  induction depth generalizing callers procedure past state context with
  | zero =>
    refine ⟨trivial, (disciplines callers).called procedure context, ?_⟩
    rw [traceCall, List.append_nil]
    exact hrecords.call hinvariant hbefore
  | succ depth ih =>
    exact hrecords.program (fun hbefore hcall ↦ ih hbefore hcall) (hrecords.body hbefore)
      (hrecords.call hinvariant hbefore)

/-- A program that keeps its discipline keeps the invariant, at every moment and at its end. -/
theorem Records.trace (hrecords : Records semantics disciplines invariant) (depth : ℕ)
    {program : Program signature α} {post : α → γ → Prop}
    (hok : (disciplines callers).Ok program context post)
    (hinvariant : invariant past state context) :
    Kept disciplines invariant past (semantics.trace depth callers program state)
      (semantics.exec depth program state) post :=
  hrecords.program (fun hcall hbefore ↦ hrecords.called depth hcall hbefore) hok hinvariant

end Records

end Semantics

end Trace

end KoboldKhat.Library
