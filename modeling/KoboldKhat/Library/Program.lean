import Mathlib.Logic.Basic

/-!
# Programs over operations and procedure calls

A program is the tree of everything a piece of stateful code may do: it ends with a value, ends
with a fault, performs an operation and continues with the reply, or calls a procedure and
continues when the procedure has returned. A `Signature` lists the operations with the types of
their replies, the procedures, and the faults. Nothing here says what an operation does. That is
left to a semantics, so that one program text can be run by one thread to its end
(`Library.Execution`) and by many threads in any interleaving (`Library.Interleaving`).

Recursion between procedures goes through `Program.call`, which names the procedure and leaves its
body to the semantics. A program is therefore a well-founded tree even when the procedures call
each other without bound.

`Program` is a lawful monad, so that programs can be written and regrouped as sequences.
-/

set_option autoImplicit false
set_option relaxedAutoImplicit false

namespace KoboldKhat.Library

/-- What a family of programs may use: operations with the types of their replies, procedures that
return nothing, and the faults that end a program early. -/
structure Signature where
  /-- The operations on the shared state. -/
  Operation : Type
  /-- The type of the reply to an operation. -/
  Reply : Operation → Type
  /-- The procedures, each applied to its arguments. -/
  Procedure : Type
  /-- The ways in which a program can end without a value. -/
  Fault : Type

/-- A program with a result of type `α`. -/
inductive Program (signature : Signature) (α : Type) : Type
  | done (value : α)
  | fault (reason : signature.Fault)
  | act (operation : signature.Operation)
      (next : signature.Reply operation → Program signature α)
  | call (procedure : signature.Procedure) (next : Program signature α)

namespace Program

variable {signature : Signature} {α β γ : Type}

/-- Run the first program and continue with its result. -/
def bind : Program signature α → (α → Program signature β) → Program signature β
  | done value, continuation => continuation value
  | fault reason, _ => fault reason
  | act operation next, continuation => act operation fun reply ↦ (next reply).bind continuation
  | call procedure next, continuation => call procedure (next.bind continuation)

instance : Monad (Program signature) where
  pure := done
  bind := bind

/-- The program that performs one operation and returns its reply. -/
def perform (operation : signature.Operation) : Program signature (signature.Reply operation) :=
  act operation done

/-- The program that calls one procedure. -/
def invoke (procedure : signature.Procedure) : Program signature Unit :=
  call procedure (done ())

/-- The program that takes a value or ends with the fault given in its place. -/
def ofExcept : Except signature.Fault α → Program signature α
  | .ok value => done value
  | .error reason => fault reason

theorem bind_eq (program : Program signature α) (continuation : α → Program signature β) :
    program >>= continuation = program.bind continuation :=
  rfl

theorem bind_done (program : Program signature α) : program.bind done = program := by
  induction program with
  | done value => rfl
  | fault reason => rfl
  | act operation next ih =>
    simp only [bind]
    congr 1
    funext reply
    exact ih reply
  | call procedure next ih => simp only [bind, ih]

theorem bind_assoc (program : Program signature α) (first : α → Program signature β)
    (second : β → Program signature γ) :
    (program.bind first).bind second = program.bind fun value ↦ (first value).bind second := by
  induction program with
  | done value => rfl
  | fault reason => rfl
  | act operation next ih =>
    simp only [bind]
    congr 1
    funext reply
    exact ih reply
  | call procedure next ih => simp only [bind, ih]

instance : LawfulMonad (Program signature) :=
  LawfulMonad.mk' (Program signature) (fun program ↦ bind_done program) (fun _ _ ↦ rfl)
    fun program first second ↦ bind_assoc program first second

end Program

end KoboldKhat.Library
