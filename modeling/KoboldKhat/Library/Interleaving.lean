import KoboldKhat.Library.Execution
import Mathlib.Logic.Function.Basic
import Mathlib.Logic.Relation
import Mathlib.Tactic.Common

/-!
# Running programs by many threads

A `Machine` says what the threads of a system do to a shared state: which programs an idle thread
may begin, how an operation goes on without being finished and how it is finished with a reply, and
what is noted of a procedure call. `Machine.Step` is one step of one thread, so the configurations
that `Machine.Reachable` reaches from an initial state are those of every interleaving of any
number of threads. A program that faulted, and an operation that neither goes on nor is finished,
leave their thread where it is.

A `Discipline` gives each thread a context of its own, says which operations a context allows, and
how a reply changes the context. `Discipline.Ok` checks a program against it, one thread at a time
and without the shared state. `Discipline.Sound` is the other half: an invariant of the shared state
and all the contexts, kept by every step that the contexts allow. `Sound.reachable` joins the two.

`Simulates` relates a machine to a `Semantics` of the same programs: what an operation does to one
thread alone, one thread of the machine can do. `Simulates.exec` then makes a run of a program by
one thread a part of an interleaving.
-/

set_option autoImplicit false
set_option relaxedAutoImplicit false

namespace KoboldKhat.Library

variable {signature : Signature} {ι σ : Type}

/-! ### Machines -/

/-- What threads do to a shared state. -/
structure Machine (signature : Signature) (ι σ : Type) where
  /-- The body of a procedure. -/
  body : signature.Procedure → Program signature Unit
  /-- An idle thread begins a program, which changes the state. -/
  enter : ι → σ → Program signature Unit → σ → Prop
  /-- An operation of a thread goes on and is not finished by that. -/
  proceed : ι → signature.Operation → σ → σ → Prop
  /-- An operation of a thread is finished with a reply. -/
  reply : ι → (operation : signature.Operation) → σ → signature.Reply operation → σ → Prop
  /-- What is noted in the state when a thread calls a procedure. -/
  note : ι → signature.Procedure → σ → σ

/-- The shared state, with the program each thread has still to run; `none` is an idle thread. -/
@[ext] structure Config (signature : Signature) (ι σ : Type) where
  /-- The shared state. -/
  state : σ
  /-- What is left of the program of each thread. -/
  threads : ι → Option (Program signature Unit)

namespace Machine

variable [DecidableEq ι] (machine : Machine signature ι σ)

/-- One step of one thread. -/
inductive Step : Config signature ι σ → Config signature ι σ → Prop
  | enter {state after : σ} {threads : ι → Option (Program signature Unit)} {thread : ι}
      {program : Program signature Unit} (hidle : threads thread = none)
      (henter : machine.enter thread state program after) :
      Step ⟨state, threads⟩ ⟨after, Function.update threads thread (some program)⟩
  | proceed {state after : σ} {threads : ι → Option (Program signature Unit)} {thread : ι}
      {operation : signature.Operation}
      {next : signature.Reply operation → Program signature Unit}
      (hat : threads thread = some (.act operation next))
      (hproceed : machine.proceed thread operation state after) :
      Step ⟨state, threads⟩ ⟨after, threads⟩
  | reply {state after : σ} {threads : ι → Option (Program signature Unit)} {thread : ι}
      {operation : signature.Operation}
      {next : signature.Reply operation → Program signature Unit}
      {value : signature.Reply operation} (hat : threads thread = some (.act operation next))
      (hreply : machine.reply thread operation state value after) :
      Step ⟨state, threads⟩ ⟨after, Function.update threads thread (some (next value))⟩
  | call {state : σ} {threads : ι → Option (Program signature Unit)} {thread : ι}
      {procedure : signature.Procedure} {next : Program signature Unit}
      (hat : threads thread = some (.call procedure next)) :
      Step ⟨state, threads⟩ ⟨machine.note thread procedure state,
        Function.update threads thread (some (machine.body procedure >>= fun _ ↦ next))⟩
  | leave {state : σ} {threads : ι → Option (Program signature Unit)} {thread : ι}
      (hat : threads thread = some (.done ())) :
      Step ⟨state, threads⟩ ⟨state, Function.update threads thread none⟩

/-- One configuration leads to another by steps of any threads in any order. -/
def Steps : Config signature ι σ → Config signature ι σ → Prop :=
  Relation.ReflTransGen machine.Step

/-- The configuration can be reached from a state in which every thread is idle. -/
def Reachable (start : σ) (config : Config signature ι σ) : Prop :=
  machine.Steps ⟨start, fun _ ↦ none⟩ config

/-- One step of the given thread. -/
def StepOf (thread : ι) (config after : Config signature ι σ) : Prop :=
  match config.threads thread with
  | none => ∃ program, machine.enter thread config.state program after.state ∧
      after.threads = Function.update config.threads thread (some program)
  | some (.done _) => after.state = config.state ∧
      after.threads = Function.update config.threads thread none
  | some (.fault _) => False
  | some (.act operation next) =>
      (machine.proceed thread operation config.state after.state ∧
        after.threads = config.threads) ∨
      ∃ value, machine.reply thread operation config.state value after.state ∧
        after.threads = Function.update config.threads thread (some (next value))
  | some (.call procedure next) =>
      after.state = machine.note thread procedure config.state ∧
        after.threads = Function.update config.threads thread
          (some (machine.body procedure >>= fun _ ↦ next))

/-- A step is a step of some thread. -/
theorem step_iff_exists_stepOf {config after : Config signature ι σ} :
    machine.Step config after ↔ ∃ thread, machine.StepOf thread config after := by
  constructor
  · intro hstep
    cases hstep with
    | @enter state after threads thread program hidle henter =>
      refine ⟨thread, ?_⟩
      simp only [StepOf, hidle]
      exact ⟨program, henter, rfl⟩
    | @proceed state after threads thread operation next hat hproceed =>
      refine ⟨thread, ?_⟩
      simp only [StepOf, hat]
      exact .inl ⟨hproceed, trivial⟩
    | @reply state after threads thread operation next value hat hreply =>
      refine ⟨thread, ?_⟩
      simp only [StepOf, hat]
      exact .inr ⟨value, hreply, rfl⟩
    | @call state threads thread procedure next hat =>
      refine ⟨thread, ?_⟩
      simp only [StepOf, hat]
      exact ⟨trivial, trivial⟩
    | @leave state threads thread hat =>
      refine ⟨thread, ?_⟩
      simp only [StepOf, hat]
      exact ⟨trivial, trivial⟩
  · rintro ⟨thread, hstep⟩
    obtain ⟨state, threads⟩ := config
    obtain ⟨final, left⟩ := after
    rcases hat : threads thread with _ | (_ | _ | ⟨operation, next⟩ | ⟨procedure, next⟩)
    · simp only [StepOf, hat] at hstep
      obtain ⟨program, henter, rfl⟩ := hstep
      exact .enter hat henter
    · simp only [StepOf, hat] at hstep
      obtain ⟨rfl, rfl⟩ := hstep
      exact .leave hat
    · simp only [StepOf, hat] at hstep
    · simp only [StepOf, hat] at hstep
      rcases hstep with ⟨hproceed, rfl⟩ | ⟨value, hreply, rfl⟩
      · exact .proceed hat hproceed
      · exact .reply hat hreply
    · simp only [StepOf, hat] at hstep
      obtain ⟨rfl, rfl⟩ := hstep
      exact .call hat

variable {machine} in
/-- A step of a thread is a step. -/
theorem StepOf.step {thread : ι} {config after : Config signature ι σ}
    (hstep : machine.StepOf thread config after) : machine.Step config after :=
  machine.step_iff_exists_stepOf.mpr ⟨thread, hstep⟩

/-- A thread finishes the operation it is at, while the others stand still. -/
theorem stepOf_of_reply {state after : σ} {threads : ι → Option (Program signature Unit)}
    {thread : ι} {operation : signature.Operation}
    {next : signature.Reply operation → Program signature Unit} (value : signature.Reply operation)
    (hreply : machine.reply thread operation state value after) :
    machine.StepOf thread
      ⟨state, Function.update threads thread (some (.act operation next))⟩
      ⟨after, Function.update threads thread (some (next value))⟩ := by
  simp only [StepOf, Function.update_self, Function.update_idem]
  exact .inr ⟨value, hreply, rfl⟩

/-- One configuration leads to another by steps that the guard admits. -/
def StepsUnder (guard : Config signature ι σ → ι → Prop) :
    Config signature ι σ → Config signature ι σ → Prop :=
  Relation.ReflTransGen fun config after ↦
    ∃ thread, guard config thread ∧ machine.StepOf thread config after

variable {machine} in
/-- Steps that a guard admits are steps. -/
theorem StepsUnder.steps {guard : Config signature ι σ → ι → Prop}
    {config after : Config signature ι σ} (hrun : machine.StepsUnder guard config after) :
    machine.Steps config after :=
  Relation.ReflTransGen.mono (fun _ _ ⟨_, _, hstep⟩ ↦ hstep.step) _ _ hrun

/-- If every thread of a kind can take a step or is held up by one of lower rank of the same kind,
then some thread of that kind can take a step. -/
theorem exists_stepOf_of_rank {config : Config signature ι σ} {kind : ι → Prop} (rank : ι → ℕ)
    (hranked : ∀ thread, kind thread → (∃ after, machine.StepOf thread config after) ∨
      ∃ other, kind other ∧ rank other < rank thread) {thread : ι} (hkind : kind thread) :
    ∃ other, kind other ∧ ∃ after, machine.StepOf other config after := by
  induction hrank : rank thread using Nat.strongRecOn generalizing thread with
  | ind bound ih =>
    rcases hranked thread hkind with hstep | ⟨other, hother, hlower⟩
    · exact ⟨thread, hkind, hstep⟩
    · exact ih (rank other) (hrank ▸ hlower) hother rfl

end Machine

/-! ### Runs by one thread -/

/-- Whatever an operation does to a state of the semantics, one thread of the machine can do to a
state alike. -/
structure Simulates {τ : Type} (machine : Machine signature ι σ) (semantics : Semantics signature τ)
    (thread : ι) (alike : τ → σ → Prop) : Prop where
  /-- The procedures have the same bodies. -/
  body : machine.body = semantics.body
  /-- An operation that returned goes on until it is finished with the same reply. -/
  perform : ∀ {operation state value after other}, alike state other →
    semantics.perform operation state = .returned value after →
    ∃ middle final, Relation.ReflTransGen (machine.proceed thread operation) other middle ∧
      machine.reply thread operation middle value final ∧ alike after final
  /-- What is noted of a call keeps the states alike. -/
  note : ∀ {procedure state other}, alike state other →
    alike state (machine.note thread procedure other)

namespace Simulates

variable [DecidableEq ι] {τ α : Type} {machine : Machine signature ι σ}
  {semantics : Semantics signature τ} {thread : ι} {alike : τ → σ → Prop}

/-- An operation that goes on takes steps of the machine. -/
theorem proceed_steps {threads : ι → Option (Program signature Unit)}
    {operation : signature.Operation} {next : signature.Reply operation → Program signature Unit}
    (hat : threads thread = some (.act operation next)) {state after : σ}
    (hproceed : Relation.ReflTransGen (machine.proceed thread operation) state after) :
    machine.Steps ⟨state, threads⟩ ⟨after, threads⟩ := by
  induction hproceed with
  | refl => exact .refl
  | tail _ hstep ih => exact ih.tail (.proceed hat hstep)

/-- The machine can follow the calls: from the body of a procedure to what comes after the call. -/
def FollowsCalls (machine : Machine signature ι σ) (thread : ι) (alike : τ → σ → Prop)
    (enter : signature.Procedure → τ → Outcome signature.Fault τ Unit) : Prop :=
  ∀ procedure state after other, enter procedure state = .returned () after → alike state other →
    ∀ (threads : ι → Option (Program signature Unit)) next,
      threads thread = some (machine.body procedure >>= fun _ ↦ next) →
      ∃ final, alike after final ∧
        machine.Steps ⟨other, threads⟩ ⟨final, Function.update threads thread (some next)⟩

/-- A machine that can follow the calls can follow a program that makes them. -/
theorem run_steps (hsimulates : Simulates machine semantics thread alike)
    {enter : signature.Procedure → τ → Outcome signature.Fault τ Unit}
    (henter : FollowsCalls machine thread alike enter) (program : Program signature α)
    {state after : τ} {value : α} {other : σ}
    (hrun : program.run semantics.perform enter state = .returned value after)
    (halike : alike state other) {threads : ι → Option (Program signature Unit)}
    {next : α → Program signature Unit} (hat : threads thread = some (program >>= next)) :
    ∃ final, alike after final ∧ machine.Steps ⟨other, threads⟩
      ⟨final, Function.update threads thread (some (next value))⟩ := by
  induction program generalizing state other threads with
  | done result =>
    cases hrun
    refine ⟨other, halike, ?_⟩
    rw [show some (next value) = threads thread from hat.symm, Function.update_eq_self]
    exact .refl
  | fault reason => cases hrun
  | act operation rest ih =>
    obtain ⟨reply, middle, hperform, hrest⟩ := Outcome.bind_eq_returned_iff.mp hrun
    obtain ⟨replying, replied, hproceed, hreply, hmiddle⟩ := hsimulates.perform halike hperform
    obtain ⟨final, hfinal, hsteps⟩ := ih reply hrest hmiddle
      (Function.update_self thread (some ((rest reply).bind next)) threads)
    rw [Function.update_idem] at hsteps
    exact ⟨final, hfinal, (proceed_steps hat hproceed).trans (.head (.reply hat hreply) hsteps)⟩
  | call procedure rest ih =>
    obtain ⟨_, middle, hcall, hrest⟩ := Outcome.bind_eq_returned_iff.mp hrun
    have hcalled : machine.Step ⟨other, threads⟩ _ := .call hat
    obtain ⟨returned, hmiddle, hbody⟩ := henter procedure state middle _ hcall
      (hsimulates.note halike) _ _ (Function.update_self thread _ threads)
    rw [Function.update_idem] at hbody
    obtain ⟨final, hfinal, hsteps⟩ := ih hrest hmiddle
      (Function.update_self thread (some (rest.bind next)) threads)
    rw [Function.update_idem] at hsteps
    exact ⟨final, hfinal, (Relation.ReflTransGen.head hcalled hbody).trans hsteps⟩

/-- The machine can follow calls nested to any depth. -/
theorem enter_steps (hsimulates : Simulates machine semantics thread alike) (depth : ℕ) :
    FollowsCalls machine thread alike (semantics.enter depth) := by
  induction depth with
  | zero =>
    intro procedure state after other hrun
    cases hrun
  | succ depth ih =>
    intro procedure state after other hrun halike threads next hat
    have hbody : threads thread = some (semantics.body procedure >>= fun _ ↦ next) := by
      rw [← hsimulates.body]
      exact hat
    exact hsimulates.run_steps ih (semantics.body procedure) hrun halike hbody

/-- A program that one thread runs to a value is run to that value by a thread of the machine, while
the other threads do nothing. -/
theorem exec (hsimulates : Simulates machine semantics thread alike) {depth : ℕ}
    {program : Program signature α} {state after : τ} {value : α} {other : σ}
    (hexec : semantics.exec depth program state = .returned value after)
    (halike : alike state other) {threads : ι → Option (Program signature Unit)}
    {next : α → Program signature Unit} (hat : threads thread = some (program >>= next)) :
    ∃ final, alike after final ∧ machine.Steps ⟨other, threads⟩
      ⟨final, Function.update threads thread (some (next value))⟩ :=
  hsimulates.run_steps (hsimulates.enter_steps depth) program hexec halike hat

end Simulates

/-! ### Disciplines -/

/-- What a thread may do, by a context it keeps for itself. -/
structure Discipline (signature : Signature) (γ : Type) where
  /-- The operations a context allows. -/
  allowed : γ → signature.Operation → Prop
  /-- The context after a reply, or `none` if the reply cannot come in this context. -/
  next : γ → (operation : signature.Operation) → signature.Reply operation → Option γ
  /-- The contexts in which a procedure may be called. -/
  before : signature.Procedure → γ → Prop
  /-- The context in which the body of a called procedure starts. -/
  called : signature.Procedure → γ → γ
  /-- The contexts of a call and of its return. -/
  after : signature.Procedure → γ → γ → Prop

namespace Discipline

variable {γ α β : Type} {discipline : Discipline signature γ}

/-- The program keeps the discipline from a context on, and ends only in contexts that satisfy the
postcondition. -/
def Ok (discipline : Discipline signature γ) :
    Program signature α → γ → (α → γ → Prop) → Prop
  | .done value, context, post => post value context
  | .fault _, _, _ => True
  | .act operation next, context, post =>
    discipline.allowed context operation ∧ ∀ reply after,
      discipline.next context operation reply = some after → discipline.Ok (next reply) after post
  | .call procedure next, context, post =>
    discipline.before procedure context ∧ ∀ after,
      discipline.after procedure context after → discipline.Ok next after post

variable {context : γ} {post : α → γ → Prop}

@[simp] theorem ok_pure (value : α) :
    discipline.Ok (pure value) context post ↔ post value context :=
  Iff.rfl

@[simp] theorem ok_done (value : α) :
    discipline.Ok (.done value) context post ↔ post value context :=
  Iff.rfl

@[simp] theorem ok_fault (reason : signature.Fault) :
    discipline.Ok (.fault reason) context post :=
  trivial

@[simp] theorem ok_perform {operation : signature.Operation}
    {final : signature.Reply operation → γ → Prop} :
    discipline.Ok (.perform operation) context final ↔
      discipline.allowed context operation ∧ ∀ reply after,
        discipline.next context operation reply = some after → final reply after :=
  Iff.rfl

@[simp] theorem ok_invoke {procedure : signature.Procedure} {final : Unit → γ → Prop} :
    discipline.Ok (.invoke procedure) context final ↔
      discipline.before procedure context ∧ ∀ after,
        discipline.after procedure context after → final () after :=
  Iff.rfl

@[simp] theorem ok_ite {condition : Prop} [Decidable condition]
    {positive negative : Program signature α} :
    discipline.Ok (if condition then positive else negative) context post ↔
      (condition → discipline.Ok positive context post) ∧
        (¬condition → discipline.Ok negative context post) := by
  split <;> simp_all

/-- A sequence keeps the discipline when its first part does, up to contexts in which the rest
does. -/
@[simp] theorem ok_bind {program : Program signature α} {continuation : α → Program signature β}
    {final : β → γ → Prop} :
    discipline.Ok (program >>= continuation) context final ↔
      discipline.Ok program context fun value after ↦
        discipline.Ok (continuation value) after final := by
  rw [Program.bind_eq]
  induction program generalizing context with
  | done value => rfl
  | fault reason => rfl
  | act operation next ih => exact and_congr_right fun _ ↦ forall₃_congr fun _ _ _ ↦ ih _
  | call procedure next ih => exact and_congr_right fun _ ↦ forall₂_congr fun _ _ ↦ ih

/-- Rule of consequence. -/
theorem Ok.mono {program : Program signature α} {weaker : α → γ → Prop}
    (hok : discipline.Ok program context post)
    (hpost : ∀ value after, post value after → weaker value after) :
    discipline.Ok program context weaker := by
  induction program generalizing context with
  | done value => exact hpost value context hok
  | fault reason => trivial
  | act operation next ih =>
    exact ⟨hok.1, fun reply after hnext ↦ ih reply (hok.2 reply after hnext)⟩
  | call procedure next ih => exact ⟨hok.1, fun after hafter ↦ ih (hok.2 after hafter)⟩

/-- Two disciplines at once, each with a context of its own. -/
def prod {δ : Type} (first : Discipline signature γ) (second : Discipline signature δ) :
    Discipline signature (γ × δ) where
  allowed context operation :=
    first.allowed context.1 operation ∧ second.allowed context.2 operation
  next context operation reply :=
    (first.next context.1 operation reply).bind fun after ↦
      (second.next context.2 operation reply).map fun other ↦ (after, other)
  before procedure context := first.before procedure context.1 ∧ second.before procedure context.2
  called procedure context := (first.called procedure context.1, second.called procedure context.2)
  after procedure context final :=
    first.after procedure context.1 final.1 ∧ second.after procedure context.2 final.2

/-- A program that keeps two disciplines keeps both at once. -/
theorem Ok.prod {δ : Type} {second : Discipline signature δ} {other : δ} {final : α → δ → Prop}
    {program : Program signature α} (hfirst : discipline.Ok program context post)
    (hsecond : second.Ok program other final) :
    (discipline.prod second).Ok program (context, other) fun value after ↦
      post value after.1 ∧ final value after.2 := by
  induction program generalizing context other with
  | done value => exact ⟨hfirst, hsecond⟩
  | fault reason => trivial
  | act operation next ih =>
    refine ⟨⟨hfirst.1, hsecond.1⟩, fun reply after hnext ↦ ?_⟩
    obtain ⟨middle, hmiddle, hrest⟩ := Option.bind_eq_some_iff.mp hnext
    obtain ⟨last, hlast, rfl⟩ := Option.map_eq_some_iff.mp hrest
    exact ih reply (hfirst.2 reply middle hmiddle) (hsecond.2 reply last hlast)
  | call procedure next ih =>
    exact ⟨⟨hfirst.1, hsecond.1⟩, fun after hafter ↦
      ih (hfirst.2 after.1 hafter.1) (hsecond.2 after.2 hafter.2)⟩

/-! ### Soundness -/

variable [DecidableEq ι] {machine : Machine signature ι σ}

/-- An invariant of the state and the contexts of all threads that is kept by whatever the
discipline allows. Idle threads have contexts at rest. -/
structure Sound (machine : Machine signature ι σ) (discipline : Discipline signature γ)
    (rest : γ → Prop) (invariant : σ → (ι → γ) → Prop) : Prop where
  /-- A program that an idle thread begins keeps the discipline in a context of its own. -/
  enter : ∀ {state contexts thread program after}, invariant state contexts →
    rest (contexts thread) → machine.enter thread state program after →
    ∃ context, invariant after (Function.update contexts thread context) ∧
      discipline.Ok program context fun _ final ↦ rest final
  /-- An operation that goes on keeps the invariant in a context from which its replies lead to the
  same contexts. -/
  proceed : ∀ {state contexts thread operation after}, invariant state contexts →
    discipline.allowed (contexts thread) operation →
    machine.proceed thread operation state after →
    ∃ context, invariant after (Function.update contexts thread context) ∧
      discipline.allowed context operation ∧ ∀ reply,
        discipline.next context operation reply =
          discipline.next (contexts thread) operation reply
  /-- An operation that is finished keeps the invariant in the next context of its thread. -/
  reply : ∀ {state contexts thread operation value after}, invariant state contexts →
    discipline.allowed (contexts thread) operation →
    machine.reply thread operation state value after →
    ∃ context, discipline.next (contexts thread) operation value = some context ∧
      invariant after (Function.update contexts thread context)
  /-- A call keeps the invariant in the context its body starts in. -/
  call : ∀ {state contexts thread procedure}, invariant state contexts →
    discipline.before procedure (contexts thread) →
    invariant (machine.note thread procedure state)
      (Function.update contexts thread (discipline.called procedure (contexts thread)))
  /-- The bodies of the procedures keep the discipline. -/
  body : ∀ {procedure context}, discipline.before procedure context →
    discipline.Ok (machine.body procedure) (discipline.called procedure context)
      fun _ final ↦ discipline.after procedure context final

/-- What a thread may have in front of it: nothing and a context at rest, or a program that keeps
the discipline and ends at rest. -/
def ThreadOk (discipline : Discipline signature γ) (rest : γ → Prop) :
    Option (Program signature Unit) → γ → Prop
  | none, context => rest context
  | some program, context => discipline.Ok program context fun _ final ↦ rest final

/-- The invariant holds, and every thread keeps the discipline. -/
def Holds (discipline : Discipline signature γ) (rest : γ → Prop)
    (invariant : σ → (ι → γ) → Prop) (config : Config signature ι σ) : Prop :=
  ∃ contexts, invariant config.state contexts ∧
    ∀ thread, discipline.ThreadOk rest (config.threads thread) (contexts thread)

variable {rest : γ → Prop} {invariant : σ → (ι → γ) → Prop}

/-- A change of one thread and its context leaves the others as they were. -/
theorem threadOk_update {threads : ι → Option (Program signature Unit)} {contexts : ι → γ}
    (hothers : ∀ thread, discipline.ThreadOk rest (threads thread) (contexts thread)) {thread : ι}
    {program : Option (Program signature Unit)}
    (hthread : discipline.ThreadOk rest program context) (other : ι) :
    discipline.ThreadOk rest (Function.update threads thread program other)
      (Function.update contexts thread context other) := by
  by_cases hother : other = thread
  · rw [hother, Function.update_self, Function.update_self]
    exact hthread
  · rw [Function.update_of_ne hother, Function.update_of_ne hother]
    exact hothers other

/-- Soundness of a discipline for the steps that a guard admits. Whether a reply keeps the invariant
may depend on the guard and on what the other threads have in front of them. -/
structure SoundUnder (machine : Machine signature ι σ) (discipline : Discipline signature γ)
    (rest : γ → Prop) (guard : Config signature ι σ → ι → Prop)
    (invariant : σ → (ι → γ) → Prop) : Prop where
  /-- A program that an idle thread begins keeps the discipline in a context of its own. -/
  enter : ∀ {state contexts thread program after}, invariant state contexts →
    rest (contexts thread) → machine.enter thread state program after →
    ∃ context, invariant after (Function.update contexts thread context) ∧
      discipline.Ok program context fun _ final ↦ rest final
  /-- An operation that goes on keeps the invariant in a context from which its replies lead to the
  same contexts. -/
  proceed : ∀ {state contexts thread operation after}, invariant state contexts →
    discipline.allowed (contexts thread) operation →
    machine.proceed thread operation state after →
    ∃ context, invariant after (Function.update contexts thread context) ∧
      discipline.allowed context operation ∧ ∀ reply,
        discipline.next context operation reply =
          discipline.next (contexts thread) operation reply
  /-- An operation that is finished in a step the guard admits keeps the invariant in the next
  context of its thread. -/
  reply : ∀ {config : Config signature ι σ} {contexts thread operation next value after},
    invariant config.state contexts →
    (∀ other, discipline.ThreadOk rest (config.threads other) (contexts other)) →
    config.threads thread = some (.act operation next) → guard config thread →
    machine.reply thread operation config.state value after →
    ∃ context, discipline.next (contexts thread) operation value = some context ∧
      invariant after (Function.update contexts thread context)
  /-- A call keeps the invariant in the context its body starts in. -/
  call : ∀ {state contexts thread procedure}, invariant state contexts →
    discipline.before procedure (contexts thread) →
    invariant (machine.note thread procedure state)
      (Function.update contexts thread (discipline.called procedure (contexts thread)))
  /-- The bodies of the procedures keep the discipline. -/
  body : ∀ {procedure context}, discipline.before procedure context →
    discipline.Ok (machine.body procedure) (discipline.called procedure context)
      fun _ final ↦ discipline.after procedure context final

/-- One step that the guard admits keeps the invariant and the discipline of every thread. -/
theorem SoundUnder.step {guard : Config signature ι σ → ι → Prop}
    (hsound : SoundUnder machine discipline rest guard invariant) {thread : ι}
    {config after : Config signature ι σ} (hguard : guard config thread)
    (hstep : machine.StepOf thread config after)
    (hholds : Holds discipline rest invariant config) :
    Holds discipline rest invariant after := by
  obtain ⟨contexts, hinvariant, hthreads⟩ := hholds
  obtain ⟨state, left⟩ := after
  have hok := hthreads thread
  rcases hat : config.threads thread with _ | (_ | _ | ⟨operation, next⟩ | ⟨procedure, next⟩)
  · simp only [Machine.StepOf, hat] at hstep
    obtain ⟨program, henter, rfl⟩ := hstep
    rw [hat] at hok
    obtain ⟨context, hkept, hprogram⟩ := hsound.enter hinvariant hok henter
    exact ⟨_, hkept, threadOk_update hthreads hprogram⟩
  · simp only [Machine.StepOf, hat] at hstep
    obtain ⟨rfl, rfl⟩ := hstep
    rw [hat] at hok
    have hleft : ∀ other, discipline.ThreadOk rest
        (Function.update config.threads thread none other)
        (Function.update contexts thread (contexts thread) other) := threadOk_update hthreads hok
    rw [Function.update_eq_self] at hleft
    exact ⟨contexts, hinvariant, hleft⟩
  · simp only [Machine.StepOf, hat] at hstep
  · simp only [Machine.StepOf, hat] at hstep
    rw [hat] at hok
    rcases hstep with ⟨hproceed, rfl⟩ | ⟨value, hreply, rfl⟩
    · obtain ⟨context, hkept, hallowed, hsame⟩ := hsound.proceed hinvariant hok.1 hproceed
      have hwaits : discipline.ThreadOk rest (some (.act operation next)) context :=
        ⟨hallowed, fun reply final hnext ↦ hok.2 reply final (hsame reply ▸ hnext)⟩
      have hothers : ∀ other, discipline.ThreadOk rest (Function.update config.threads thread
          (some (.act operation next)) other) (Function.update contexts thread context other) :=
        threadOk_update hthreads hwaits
      rw [← hat, Function.update_eq_self] at hothers
      exact ⟨_, hkept, hothers⟩
    · obtain ⟨context, hnext, hkept⟩ := hsound.reply hinvariant hthreads hat hguard hreply
      exact ⟨_, hkept, threadOk_update hthreads (hok.2 value context hnext)⟩
  · simp only [Machine.StepOf, hat] at hstep
    obtain ⟨rfl, rfl⟩ := hstep
    rw [hat] at hok
    refine ⟨_, hsound.call hinvariant hok.1, threadOk_update hthreads ?_⟩
    exact ok_bind.mpr ((hsound.body hok.1).mono fun _ final hfinal ↦ hok.2 final hfinal)

/-- What holds at the start holds in every configuration that admitted steps reach. -/
theorem SoundUnder.run {guard : Config signature ι σ → ι → Prop}
    (hsound : SoundUnder machine discipline rest guard invariant)
    {config after : Config signature ι σ} (hrun : machine.StepsUnder guard config after)
    (hholds : Holds discipline rest invariant config) :
    Holds discipline rest invariant after := by
  induction hrun with
  | refl => exact hholds
  | tail _ hstep ih =>
    obtain ⟨thread, hguard, hstepOf⟩ := hstep
    exact hsound.step hguard hstepOf ih

/-- What is sound for all steps is sound for those that a guard admits. -/
theorem Sound.under (hsound : Sound machine discipline rest invariant)
    (guard : Config signature ι σ → ι → Prop) :
    SoundUnder machine discipline rest guard invariant where
  enter := hsound.enter
  proceed := hsound.proceed
  reply {config contexts thread operation next value after} hinvariant hthreads hat _ hreply := by
    have hok := hthreads thread
    rw [hat] at hok
    exact hsound.reply hinvariant hok.1 hreply
  call := hsound.call
  body := hsound.body

/-- One step of one thread keeps the invariant and the discipline of every thread. -/
theorem Sound.step (hsound : Sound machine discipline rest invariant)
    {config after : Config signature ι σ} (hstep : machine.Step config after)
    (hholds : Holds discipline rest invariant config) :
    Holds discipline rest invariant after := by
  obtain ⟨thread, hstepOf⟩ := machine.step_iff_exists_stepOf.mp hstep
  exact (hsound.under fun _ _ ↦ True).step trivial hstepOf hholds

/-- What holds at the start holds in every configuration that any interleaving reaches. -/
theorem Sound.reachable (hsound : Sound machine discipline rest invariant) {start : σ}
    {contexts : ι → γ} (hinvariant : invariant start contexts)
    (hrest : ∀ thread, rest (contexts thread)) {config : Config signature ι σ}
    (hreachable : machine.Reachable start config) : Holds discipline rest invariant config := by
  induction hreachable with
  | refl => exact ⟨contexts, hinvariant, hrest⟩
  | tail _ hstep ih => exact hsound.step hstep ih

end Discipline

end KoboldKhat.Library
