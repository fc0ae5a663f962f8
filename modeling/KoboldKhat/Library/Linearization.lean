import KoboldKhat.Library.Interleaving

/-!
# Objects used by many threads

An `Object` says what each of its calls returns and does when it is made alone. An `Implementation`
gives a program for each call and says what the operations of the programs do to a shared state. Any
number of threads make calls, one after the other each, and their steps interleave without
restriction. What can be seen from outside is the history: when calls are made, and when they return
with what result (`Implementation.Shows`).

A history is linearizable if its calls could have been made one at a time: there is an order of them
(`Linearization`) in which the object returns the same results, which has exactly the calls that
returned and perhaps some of those that did not, and in which a call that returned before another
was made stands before it. The last is said of every beginning of the history: some beginning of the
order has the calls that returned in it, and no others than those made in it (`Covers`).

In between stands the object whose calls take effect at one moment each, between the call and its
return (`Object.Step`). What it shows is linearizable (`Object.Step.follows`). To show that an
implementation does nothing else, one says for each thread where its call is (`Stage`) in a context
of a discipline, and what the shared state has to do with that of the object (`Linearizes`). Then
the object can follow one step of the implementation after the other (`Linearizes.simulates`), so
every history is linearizable (`Linearizes.shows`).
-/

set_option autoImplicit false
set_option relaxedAutoImplicit false

namespace KoboldKhat.Library

variable {signature : Signature} {ι σ τ γ Call : Type} {Result : Call → Type}

/-! ### Objects and histories -/

/-- An object: what each call returns and leaves when it is made alone, or nothing where the call
does not return. -/
structure Object (Call : Type) (Result : Call → Type) (σ : Type) where
  /-- The result of a call and the state after it. -/
  effect : (call : Call) → σ → Option (Result call × σ)

/-- What is seen of an object from outside. -/
inductive Visible (ι Call : Type) (Result : Call → Type)
  | invoke (thread : ι) (call : Call)
  | respond (thread : ι) (call : Call) (result : Result call)

/-- A call that has taken effect, with the thread that made it and its result. -/
abbrev Performed (ι Call : Type) (Result : Call → Type) :=
  ι × (call : Call) × Result call

/-- The call that is made, with its thread. -/
def Visible.invocation : Visible ι Call Result → List (ι × Call)
  | invoke thread call => [(thread, call)]
  | respond _ _ _ => []

/-- The call that returns, with its thread and its result. -/
def Visible.completion : Visible ι Call Result → List (Performed ι Call Result)
  | invoke _ _ => []
  | respond thread call result => [(thread, ⟨call, result⟩)]

/-- The calls made in a history. -/
def invocations (history : List (Visible ι Call Result)) : List (ι × Call) :=
  history.flatMap Visible.invocation

/-- The calls that returned in a history. -/
def completions (history : List (Visible ι Call Result)) : List (Performed ι Call Result) :=
  history.flatMap Visible.completion

theorem invocations_concat (history : List (Visible ι Call Result))
    (action : Visible ι Call Result) :
    invocations (history ++ [action]) = invocations history ++ action.invocation := by
  rw [invocations, List.flatMap_append, List.flatMap_singleton]
  rfl

theorem completions_concat (history : List (Visible ι Call Result))
    (action : Visible ι Call Result) :
    completions (history ++ [action]) = completions history ++ action.completion := by
  rw [completions, List.flatMap_append, List.flatMap_singleton]
  rfl

section Histories

variable [DecidableEq ι]

/-! ### The part of a thread -/

/-- The entries of one thread. -/
def part {α : Type} (thread : ι) (entries : List (ι × α)) : List α :=
  (entries.filter fun entry ↦ decide (entry.1 = thread)).map Prod.snd

section Parts

variable {α : Type} {thread other : ι} {first second : List (ι × α)}

@[simp] theorem part_append (thread : ι) (first second : List (ι × α)) :
    part thread (first ++ second) = part thread first ++ part thread second := by
  rw [part, List.filter_append, List.map_append]
  rfl

@[simp] theorem part_nil (thread : ι) : part thread ([] : List (ι × α)) = [] :=
  rfl

@[simp] theorem part_self (thread : ι) (value : α) : part thread [(thread, value)] = [value] := by
  simp [part]

theorem part_of_ne (hne : other ≠ thread) (value : α) : part thread [(other, value)] = [] := by
  simp [part, hne]

theorem mem_part {value : α} {entries : List (ι × α)} :
    value ∈ part thread entries ↔ (thread, value) ∈ entries := by
  simp [part]

/-- What is done to the entries does not change whose they are. -/
theorem part_map {β : Type} (image : α → β) (entries : List (ι × α)) :
    part thread (entries.map fun entry ↦ (entry.1, image entry.2)) =
      (part thread entries).map image := by
  simp [part, List.filter_map, Function.comp_def]

/-- Lists in which each thread has the same part have the same entries. -/
theorem perm_of_part (hparts : ∀ thread, part thread first = part thread second) :
    first.Perm second := by
  classical
  rw [List.perm_iff_count]
  rintro ⟨thread, value⟩
  have hcount : ∀ entries : List (ι × α),
      entries.count (thread, value) = (part thread entries).count value := by
    intro entries
    induction entries with
    | nil => rfl
    | cons entry entries ih =>
      obtain ⟨owner, content⟩ := entry
      by_cases howner : owner = thread <;> by_cases hcontent : content = value <;>
        simp_all [part]
  rw [hcount, hcount, hparts]

/-- What the entries of one thread give, if those of the others give nothing. -/
theorem flatMap_eq_part {β : Type} (image : α → List β) {entries : List (ι × α)}
    (hothers : ∀ entry ∈ entries, entry.1 ≠ thread → image entry.2 = []) :
    (entries.flatMap fun entry ↦ image entry.2) = (part thread entries).flatMap image := by
  induction entries with
  | nil => rfl
  | cons entry entries ih =>
    obtain ⟨hentry, hrest⟩ := List.forall_mem_cons.mp hothers
    rw [List.flatMap_cons, ih hrest]
    by_cases howner : entry.1 = thread
    · simp [part, howner]
    · simp [part, howner, hentry howner]

end Parts

/-- The order has the calls that returned in the history, and no others than those made in it. -/
def Covers (order : List (Performed ι Call Result)) (history : List (Visible ι Call Result)) :
    Prop :=
  ∀ thread, part thread (completions history) <+: part thread order ∧
    (part thread order).map Sigma.fst <+: part thread (invocations history)

/-- The calls are made one at a time in the order, from one state of the object to another. -/
inductive Object.Legal (object : Object Call Result σ) (start : σ) :
    List (Performed ι Call Result) → σ → Prop
  | nil : object.Legal start [] start
  | snoc {order : List (Performed ι Call Result)} {middle last : σ} {thread : ι} {call : Call}
      {result : Result call} (earlier : object.Legal start order middle)
      (effect : object.effect call middle = some (result, last)) :
      object.Legal start (order ++ [(thread, ⟨call, result⟩)]) last

/-- The calls of the history could have been made one at a time in the order, and left the object in
the given state. -/
structure Linearization (object : Object Call Result σ) (start : σ)
    (history : List (Visible ι Call Result)) (order : List (Performed ι Call Result))
    (last : σ) : Prop where
  /-- The object returns the results. -/
  legal : object.Legal start order last
  /-- The order has the calls that returned. -/
  covers : Covers order history
  /-- A call that returned before another was made stands before it. -/
  ordered : ∀ earlier, earlier <+: history → ∃ first, first <+: order ∧ Covers first earlier

section Covering

variable {history : List (Visible ι Call Result)} {order : List (Performed ι Call Result)}
  {thread : ι} {call : Call} {result : Result call}

/-- Every call in the order has been made. -/
theorem Covers.mem (hcovers : Covers order history) (hmember : (thread, ⟨call, result⟩) ∈ order) :
    (thread, call) ∈ invocations history := by
  have hpart : call ∈ (part thread order).map Sigma.fst :=
    List.mem_map.mpr ⟨⟨call, result⟩, mem_part.mpr hmember, rfl⟩
  exact mem_part.mp ((hcovers thread).2.subset hpart)

/-- Every call that returned is in the order. -/
theorem Covers.completed_mem (hcovers : Covers order history) {performed : Performed ι Call Result}
    (hmember : performed ∈ completions history) : performed ∈ order :=
  mem_part.mp ((hcovers performed.1).1.subset (mem_part.mpr hmember))

/-- If all calls of a thread returned, the order has exactly these of it. -/
theorem Covers.part_eq (hcovers : Covers order history)
    (hreturned : part thread (invocations history) =
      (part thread (completions history)).map Sigma.fst) :
    part thread order = part thread (completions history) := by
  obtain ⟨hcompleted, hinvoked⟩ := hcovers thread
  have hlength := hinvoked.length_le
  rw [hreturned, List.length_map, List.length_map] at hlength
  exact (hcompleted.eq_of_length_le hlength).symm

/-- If all calls returned, the order is one of exactly these. -/
theorem Covers.perm (hcovers : Covers order history)
    (hreturned : ∀ thread, part thread (invocations history) =
      (part thread (completions history)).map Sigma.fst) :
    order.Perm (completions history) :=
  perm_of_part fun thread ↦ hcovers.part_eq (hreturned thread)

end Covering

/-! ### Where a call is -/

/-- Where the call of a thread is: there is none, it has been made and has not taken effect, or it
has taken effect and has not returned. -/
inductive Stage (Call : Type) (Result : Call → Type)
  | idle
  | invoked (call : Call)
  | done (call : Call) (result : Result call)

/-- The call that has not returned. -/
def Stage.underway : Stage Call Result → List Call
  | idle => []
  | invoked call => [call]
  | done call _ => [call]

/-- The call that has taken effect and has not returned. -/
def Stage.effective : Stage Call Result → List ((call : Call) × Result call)
  | done call result => [⟨call, result⟩]
  | _ => []

/-- The call that has taken effect is the one that has not returned. -/
theorem Stage.effective_isPrefix (stage : Stage Call Result) :
    stage.effective.map Sigma.fst <+: stage.underway := by
  cases stage with
  | done call result => exact List.prefix_rfl
  | _ => exact List.nil_prefix

/-- The order and the history, with where each thread is. -/
structure Follows (object : Object Call Result σ) (start : σ)
    (history : List (Visible ι Call Result)) (order : List (Performed ι Call Result)) (last : σ)
    (stages : ι → Stage Call Result) : Prop where
  /-- The object returns the results. -/
  legal : object.Legal start order last
  /-- The calls in the order are those that returned and the one that has taken effect. -/
  performed : ∀ thread,
    part thread order = part thread (completions history) ++ (stages thread).effective
  /-- The calls made are those that returned and the one that has not. -/
  invoked : ∀ thread, part thread (invocations history) =
    (part thread (completions history)).map Sigma.fst ++ (stages thread).underway
  /-- A call that returned before another was made stands before it. -/
  ordered : ∀ earlier, earlier <+: history → ∃ first, first <+: order ∧ Covers first earlier

section Following

variable {object : Object Call Result σ} {start last after : σ}
  {history : List (Visible ι Call Result)} {order : List (Performed ι Call Result)}
  {stages : ι → Stage Call Result} {thread : ι} {call : Call} {result : Result call}

/-- Calls that have taken effect and calls that have been made, one by one. -/
theorem covers_of_stages
    (hperformed : ∀ thread,
      part thread order = part thread (completions history) ++ (stages thread).effective)
    (hinvoked : ∀ thread, part thread (invocations history) =
      (part thread (completions history)).map Sigma.fst ++ (stages thread).underway) :
    Covers order history := by
  intro thread
  rw [hperformed thread, hinvoked thread, List.map_append]
  exact ⟨List.prefix_append _ _,
    (List.prefix_append_right_inj _).mpr (stages thread).effective_isPrefix⟩

/-- What follows a history shows that it is linearizable. -/
theorem Follows.linearization (hfollows : Follows object start history order last stages) :
    Linearization object start history order last :=
  ⟨hfollows.legal, covers_of_stages hfollows.performed hfollows.invoked, hfollows.ordered⟩

/-- Nothing has been done before the first call. -/
theorem follows_nil (object : Object Call Result σ) (start : σ) :
    Follows object start [] [] start fun _ : ι ↦ .idle where
  legal := .nil
  performed := fun _ ↦ rfl
  invoked := fun _ ↦ rfl
  ordered := fun earlier hearlier ↦ ⟨[], List.prefix_rfl, fun _ ↦ by
    rw [List.prefix_nil.mp hearlier]
    exact ⟨List.prefix_rfl, List.prefix_rfl⟩⟩

/-- A call that is made or returns comes after everything in the history. -/
theorem Follows.extend (hfollows : Follows object start history order last stages)
    {action : Visible ι Call Result} {stage : Stage Call Result}
    (hperformed : part thread order =
      part thread (completions history ++ action.completion) ++ stage.effective)
    (hinvoked : part thread (invocations history ++ action.invocation) =
      (part thread (completions history ++ action.completion)).map Sigma.fst ++ stage.underway)
    (hothers : ∀ other ≠ thread, part other action.completion = [] ∧
      part other action.invocation = []) :
    Follows object start (history ++ [action]) order last
      (Function.update stages thread stage) := by
  have hcalls : ∀ other, part other order = part other (completions (history ++ [action])) ++
        (Function.update stages thread stage other).effective ∧
      part other (invocations (history ++ [action])) =
        (part other (completions (history ++ [action]))).map Sigma.fst ++
          (Function.update stages thread stage other).underway := by
    intro other
    rw [completions_concat, invocations_concat]
    by_cases hother : other = thread
    · subst hother
      rw [Function.update_self]
      exact ⟨hperformed, hinvoked⟩
    · obtain ⟨hcompletion, hinvocation⟩ := hothers other hother
      rw [Function.update_of_ne hother, part_append, part_append, hcompletion, hinvocation,
        List.append_nil, List.append_nil]
      exact ⟨hfollows.performed other, hfollows.invoked other⟩
  refine ⟨hfollows.legal, fun other ↦ (hcalls other).1, fun other ↦ (hcalls other).2, ?_⟩
  intro earlier hearlier
  rcases List.prefix_concat_iff.mp hearlier with rfl | hearlier
  · exact ⟨order, List.prefix_rfl,
      covers_of_stages (fun other ↦ (hcalls other).1) fun other ↦ (hcalls other).2⟩
  · exact hfollows.ordered earlier hearlier

/-- A thread makes a call. -/
theorem Follows.invoke (hfollows : Follows object start history order last stages)
    (hidle : stages thread = .idle) (call : Call) :
    Follows object start (history ++ [.invoke thread call]) order last
      (Function.update stages thread (.invoked call)) := by
  have hperformed := hfollows.performed thread
  have hinvoked := hfollows.invoked thread
  rw [hidle] at hperformed hinvoked
  apply hfollows.extend
  · simpa [Visible.completion, Stage.effective] using hperformed
  · simpa [Visible.completion, Visible.invocation, Stage.underway] using hinvoked
  · intro other hother
    exact ⟨rfl, part_of_ne (Ne.symm hother) call⟩

/-- A call returns what it has taken effect with. -/
theorem Follows.respond (hfollows : Follows object start history order last stages)
    (hdone : stages thread = .done call result) :
    Follows object start (history ++ [.respond thread call result]) order last
      (Function.update stages thread .idle) := by
  have hperformed := hfollows.performed thread
  have hinvoked := hfollows.invoked thread
  rw [hdone] at hperformed hinvoked
  apply hfollows.extend
  · simpa [Visible.completion, Stage.effective] using hperformed
  · simpa [Visible.completion, Visible.invocation, Stage.underway] using hinvoked
  · intro other hother
    exact ⟨part_of_ne (Ne.symm hother) _, rfl⟩

/-- A call takes effect. -/
theorem Follows.perform (hfollows : Follows object start history order last stages)
    (hinvoked : stages thread = .invoked call)
    (heffect : object.effect call last = some (result, after)) :
    Follows object start history (order ++ [(thread, ⟨call, result⟩)]) after
      (Function.update stages thread (.done call result)) where
  legal := hfollows.legal.snoc heffect
  performed := by
    intro other
    rw [part_append, hfollows.performed other]
    by_cases hother : other = thread
    · subst hother
      rw [Function.update_self, hinvoked]
      simp [Stage.effective]
    · rw [Function.update_of_ne hother, part_of_ne (Ne.symm hother), List.append_nil]
  invoked := by
    intro other
    rw [hfollows.invoked other]
    by_cases hother : other = thread
    · subst hother
      rw [Function.update_self, hinvoked]
      rfl
    · rw [Function.update_of_ne hother]
  ordered := by
    intro earlier hearlier
    obtain ⟨first, hfirst, hcovers⟩ := hfollows.ordered earlier hearlier
    exact ⟨first, hfirst.trans (List.prefix_append _ _), hcovers⟩

/-- An object while threads use it: its state, and where the call of each thread is. -/
@[ext] structure InUse (σ ι Call : Type) (Result : Call → Type) where
  /-- The state of the object. -/
  items : σ
  /-- Where the call of each thread is. -/
  stages : ι → Stage Call Result

/-- One step of an object whose calls take effect at one moment each, with what is seen of it. -/
inductive Object.Step (object : Object Call Result σ) :
    InUse σ ι Call Result → List (Visible ι Call Result) → InUse σ ι Call Result → Prop
  | invoke {items : σ} {stages : ι → Stage Call Result} {thread : ι} (call : Call)
      (idle : stages thread = .idle) :
      object.Step ⟨items, stages⟩ [.invoke thread call]
        ⟨items, Function.update stages thread (.invoked call)⟩
  | perform {items left : σ} {stages : ι → Stage Call Result} {thread : ι} {call : Call}
      {result : Result call} (invoked : stages thread = .invoked call)
      (effect : object.effect call items = some (result, left)) :
      object.Step ⟨items, stages⟩ [] ⟨left, Function.update stages thread (.done call result)⟩
  | respond {items : σ} {stages : ι → Stage Call Result} {thread : ι} {call : Call}
      {result : Result call} (done : stages thread = .done call result) :
      object.Step ⟨items, stages⟩ [.respond thread call result]
        ⟨items, Function.update stages thread .idle⟩

/-- A step of the object is followed by an order of the calls. -/
theorem Object.Step.follows {before next : InUse σ ι Call Result}
    {seen : List (Visible ι Call Result)} (hstep : object.Step before seen next)
    (hfollows : Follows object start history order before.items before.stages) :
    ∃ more, Follows object start (history ++ seen) (order ++ more) next.items next.stages := by
  cases hstep with
  | invoke call idle =>
    refine ⟨[], ?_⟩
    rw [List.append_nil]
    exact hfollows.invoke idle call
  | @perform items left stages thread call result invoked effect =>
    refine ⟨[(thread, ⟨call, result⟩)], ?_⟩
    rw [List.append_nil]
    exact hfollows.perform invoked effect
  | respond done =>
    refine ⟨[], ?_⟩
    rw [List.append_nil]
    exact hfollows.respond done

end Following

end Histories

/-! ### Implementations -/

/-- An implementation of an object: a program for each call, and what the operations of the programs
do to a state that all threads share. -/
structure Implementation (signature : Signature) (ι τ Call : Type) (Result : Call → Type) where
  /-- The body of a procedure. -/
  body : signature.Procedure → Program signature Unit
  /-- The program of a call. -/
  program : (call : Call) → Program signature (Result call)
  /-- An operation of a thread goes on and is not finished by that. -/
  proceed : ι → signature.Operation → τ → τ → Prop
  /-- An operation of a thread is finished with a reply. -/
  reply : ι → (operation : signature.Operation) → τ → signature.Reply operation → τ → Prop

namespace Implementation

/-- The shared state, with the call each thread is in and what is left of its program. -/
structure Config (signature : Signature) (ι τ Call : Type) (Result : Call → Type) where
  /-- The shared state. -/
  state : τ
  /-- The calls of the threads. -/
  threads : ι → Option ((call : Call) × Program signature (Result call))

variable [DecidableEq ι] (implementation : Implementation signature ι τ Call Result)

/-- One step of one thread, with what is seen of it. -/
inductive Step : Config signature ι τ Call Result → List (Visible ι Call Result) →
    Config signature ι τ Call Result → Prop
  | invoke {state : τ} {threads : ι → Option ((call : Call) × Program signature (Result call))}
      {thread : ι} (call : Call) (idle : threads thread = none) :
      Step ⟨state, threads⟩ [.invoke thread call]
        ⟨state, Function.update threads thread (some ⟨call, implementation.program call⟩)⟩
  | proceed {state after : τ}
      {threads : ι → Option ((call : Call) × Program signature (Result call))} {thread : ι}
      {call : Call} {operation : signature.Operation}
      {next : signature.Reply operation → Program signature (Result call)}
      (running : threads thread = some ⟨call, .act operation next⟩)
      (proceeds : implementation.proceed thread operation state after) :
      Step ⟨state, threads⟩ [] ⟨after, threads⟩
  | reply {state after : τ}
      {threads : ι → Option ((call : Call) × Program signature (Result call))} {thread : ι}
      {call : Call} {operation : signature.Operation}
      {next : signature.Reply operation → Program signature (Result call)}
      {value : signature.Reply operation}
      (running : threads thread = some ⟨call, .act operation next⟩)
      (replies : implementation.reply thread operation state value after) :
      Step ⟨state, threads⟩ [] ⟨after, Function.update threads thread (some ⟨call, next value⟩)⟩
  | enter {state : τ} {threads : ι → Option ((call : Call) × Program signature (Result call))}
      {thread : ι} {call : Call} {procedure : signature.Procedure}
      {next : Program signature (Result call)}
      (running : threads thread = some ⟨call, .call procedure next⟩) :
      Step ⟨state, threads⟩ [] ⟨state, Function.update threads thread
        (some ⟨call, implementation.body procedure >>= fun _ ↦ next⟩)⟩
  | respond {state : τ} {threads : ι → Option ((call : Call) × Program signature (Result call))}
      {thread : ι} {call : Call} {result : Result call}
      (running : threads thread = some ⟨call, .done result⟩) :
      Step ⟨state, threads⟩ [.respond thread call result]
        ⟨state, Function.update threads thread none⟩

/-- Steps of any threads in any order, from a state that no thread is using, with the history that
is seen of them. -/
inductive Shows (start : τ) : List (Visible ι Call Result) → Config signature ι τ Call Result → Prop
  | nil : Shows start [] ⟨start, fun _ ↦ none⟩
  | snoc {history seen : List (Visible ι Call Result)}
      {middle last : Config signature ι τ Call Result}
      (earlier : Shows start history middle) (steps : implementation.Step middle seen last) :
      Shows start (history ++ seen) last

variable {implementation} {start : τ} {history : List (Visible ι Call Result)}
  {config : Config signature ι τ Call Result}

/-- A thread makes a call. -/
theorem Shows.invoke (hshows : implementation.Shows start history config) (thread : ι)
    (call : Call) (hidle : config.threads thread = none) :
    implementation.Shows start (history ++ [.invoke thread call]) ⟨config.state,
      Function.update config.threads thread (some ⟨call, implementation.program call⟩)⟩ :=
  hshows.snoc (.invoke call hidle)

/-- A thread finishes the operation it is at, while the others stand still. -/
theorem Shows.reply {threads : ι → Option ((call : Call) × Program signature (Result call))}
    {state after : τ} {thread : ι} {call : Call} {operation : signature.Operation}
    {next : signature.Reply operation → Program signature (Result call)}
    (hshows : implementation.Shows start history
      ⟨state, Function.update threads thread (some ⟨call, .act operation next⟩)⟩)
    (value : signature.Reply operation)
    (hreplies : implementation.reply thread operation state value after) :
    implementation.Shows start history
      ⟨after, Function.update threads thread (some ⟨call, next value⟩)⟩ := by
  have hlast := hshows.snoc (.reply (Function.update_self ..) hreplies)
  rwa [Function.update_idem, List.append_nil] at hlast

/-- A call returns. -/
theorem Shows.respond {threads : ι → Option ((call : Call) × Program signature (Result call))}
    {state : τ} {thread : ι} {call : Call} {result : Result call}
    (hshows : implementation.Shows start history
      ⟨state, Function.update threads thread (some ⟨call, .done result⟩)⟩) :
    implementation.Shows start (history ++ [.respond thread call result])
      ⟨state, Function.update threads thread none⟩ := by
  have hlast := hshows.snoc (.respond (Function.update_self ..))
  rwa [Function.update_idem] at hlast

/-- The calls a thread made are those that returned, and the one it is in. -/
theorem Shows.invoked (hshows : implementation.Shows start history config) (thread : ι) :
    part thread (invocations history) = (part thread (completions history)).map Sigma.fst ++
      ((config.threads thread).map Sigma.fst).toList := by
  induction hshows with
  | nil => rfl
  | snoc earlier steps ih =>
    cases steps with
    | @invoke state threads caller call idle =>
      rw [invocations_concat, completions_concat]
      by_cases hcaller : caller = thread
      · subst hcaller
        simpa [Visible.invocation, Visible.completion, idle] using ih
      · simpa [Visible.invocation, Visible.completion, part_of_ne hcaller,
          Function.update_of_ne (Ne.symm hcaller)] using ih
    | @respond state threads caller call result running =>
      rw [invocations_concat, completions_concat]
      by_cases hcaller : caller = thread
      · subst hcaller
        simpa [Visible.invocation, Visible.completion, running] using ih
      · simpa [Visible.invocation, Visible.completion, part_of_ne hcaller,
          Function.update_of_ne (Ne.symm hcaller)] using ih
    | proceed running proceeds => simpa using ih
    | @reply state after threads caller call operation next value running replies =>
      by_cases hcaller : caller = thread
      · subst hcaller
        simpa [running] using ih
      · simpa [Function.update_of_ne (Ne.symm hcaller)] using ih
    | @enter state threads caller call procedure next running =>
      by_cases hcaller : caller = thread
      · subst hcaller
        simpa [running] using ih
      · simpa [Function.update_of_ne (Ne.symm hcaller)] using ih

end Implementation

/-! ### How to show that an implementation does what the object does -/

/-- When each call takes effect, said in the contexts of a discipline that the programs keep: where
the call of a thread is in its context, in which contexts it can return, and an invariant of the
shared state, the state of the object and the contexts of all threads. -/
structure Linearizes (implementation : Implementation signature ι τ Call Result)
    [DecidableEq ι] (object : Object Call Result σ) (discipline : Discipline signature γ)
    (stage : γ → Stage Call Result) (returns : (call : Call) → Result call → γ → Prop)
    (invariant : τ → σ → (ι → γ) → Prop) : Prop where
  /-- A thread begins the program of a call in a context in which the call has been made. -/
  invoke : ∀ {state items contexts thread}, invariant state items contexts →
    stage (contexts thread) = .idle → ∀ call, ∃ context, stage context = .invoked call ∧
      invariant state items (Function.update contexts thread context) ∧
      discipline.Ok (implementation.program call) context fun result final ↦
        returns call result final
  /-- An operation that goes on keeps the invariant in a context from which its replies lead to the
  same contexts. -/
  proceed : ∀ {state items contexts thread operation after}, invariant state items contexts →
    discipline.allowed (contexts thread) operation →
    implementation.proceed thread operation state after →
    ∃ context, stage context = stage (contexts thread) ∧
      invariant after items (Function.update contexts thread context) ∧
      discipline.allowed context operation ∧ ∀ reply,
        discipline.next context operation reply =
          discipline.next (contexts thread) operation reply
  /-- An operation that is finished keeps the invariant, and the call of its thread takes effect by
  it or stays where it is. -/
  reply : ∀ {state items contexts thread operation value after}, invariant state items contexts →
    discipline.allowed (contexts thread) operation →
    implementation.reply thread operation state value after →
    ∃ context left, discipline.next (contexts thread) operation value = some context ∧
      invariant after left (Function.update contexts thread context) ∧
      (stage context = stage (contexts thread) ∧ left = items ∨
        ∃ call result, stage (contexts thread) = .invoked call ∧
          stage context = .done call result ∧ object.effect call items = some (result, left))
  /-- A call of a procedure keeps the invariant in the context its body starts in. -/
  enter : ∀ {state items contexts thread procedure}, invariant state items contexts →
    discipline.before procedure (contexts thread) →
    stage (discipline.called procedure (contexts thread)) = stage (contexts thread) ∧
    invariant state items
      (Function.update contexts thread (discipline.called procedure (contexts thread)))
  /-- The bodies of the procedures keep the discipline. -/
  body : ∀ {procedure context}, discipline.before procedure context →
    discipline.Ok (implementation.body procedure) (discipline.called procedure context)
      fun _ final ↦ discipline.after procedure context final
  /-- A call that returns has taken effect with its result, and its thread can rest. -/
  respond : ∀ {state items contexts thread call result}, invariant state items contexts →
    returns call result (contexts thread) → stage (contexts thread) = .done call result ∧
    ∃ context, stage context = .idle ∧
      invariant state items (Function.update contexts thread context)

namespace Linearizes

variable [DecidableEq ι] {implementation : Implementation signature ι τ Call Result}
  {object : Object Call Result σ} {discipline : Discipline signature γ}
  {stage : γ → Stage Call Result} {returns : (call : Call) → Result call → γ → Prop}
  {invariant : τ → σ → (ι → γ) → Prop} {start : τ} {items : σ}
  {history seen : List (Visible ι Call Result)}
  {config after : Implementation.Config signature ι τ Call Result}

/-- What a thread may have in front of it: nothing, or a program that keeps the discipline and ends
where the call returns. -/
def ThreadOk (discipline : Discipline signature γ) (stage : γ → Stage Call Result)
    (returns : (call : Call) → Result call → γ → Prop) :
    Option ((call : Call) × Program signature (Result call)) → γ → Prop
  | none, context => stage context = .idle
  | some ⟨call, program⟩, context =>
    discipline.Ok program context fun result final ↦ returns call result final

/-- The object in use goes with the shared state and what the threads have in front of them. -/
def Related (discipline : Discipline signature γ) (stage : γ → Stage Call Result)
    (returns : (call : Call) → Result call → γ → Prop) (invariant : τ → σ → (ι → γ) → Prop)
    (config : Implementation.Config signature ι τ Call Result) (object : InUse σ ι Call Result) :
    Prop :=
  ∃ contexts, invariant config.state object.items contexts ∧
    (∀ thread, ThreadOk discipline stage returns (config.threads thread) (contexts thread)) ∧
    object.stages = fun thread ↦ stage (contexts thread)

/-- The stages of all threads after the context of one has changed. -/
theorem stage_update (stage : γ → Stage Call Result) (contexts : ι → γ) (thread : ι) (context : γ) :
    (fun other ↦ stage (Function.update contexts thread context other)) =
      Function.update (fun other ↦ stage (contexts other)) thread (stage context) :=
  funext (Function.apply_update (fun _ ↦ stage) contexts thread context)

/-- The stages of all threads after the context of one has changed and its stage has not. -/
theorem stage_update_eq_self {contexts : ι → γ} {thread : ι} {context : γ}
    (hsame : stage context = stage (contexts thread)) :
    (fun other ↦ stage (Function.update contexts thread context other)) =
      fun other ↦ stage (contexts other) := by
  rw [stage_update, hsame]
  exact Function.update_eq_self thread fun other ↦ stage (contexts other)

/-- A change of one thread and its context leaves the others as they were. -/
theorem threadOk_update (thread : ι) {contexts : ι → γ} {context : γ}
    {threads : ι → Option ((call : Call) × Program signature (Result call))}
    {running : Option ((call : Call) × Program signature (Result call))}
    (hothers : ∀ other, ThreadOk discipline stage returns (threads other) (contexts other))
    (hthread : ThreadOk discipline stage returns running context) (other : ι) :
    ThreadOk discipline stage returns (Function.update threads thread running other)
      (Function.update contexts thread context other) := by
  by_cases hother : other = thread
  · rw [hother, Function.update_self, Function.update_self]
    exact hthread
  · rw [Function.update_of_ne hother, Function.update_of_ne hother]
    exact hothers other

/-- The object can follow one step of one thread, by a step with the same to be seen, or by doing
nothing if there is nothing to be seen. -/
theorem simulates
    (hlinearizes : Linearizes implementation object discipline stage returns invariant)
    (hstep : implementation.Step config seen after) {before : InUse σ ι Call Result}
    (hrelated : Related discipline stage returns invariant config before) :
    ∃ next, Related discipline stage returns invariant after next ∧
      (seen = [] ∧ next = before ∨ object.Step before seen next) := by
  obtain ⟨items, stages⟩ := before
  obtain ⟨contexts, hinvariant, hthreads, hstages⟩ := hrelated
  obtain rfl : stages = fun thread ↦ stage (contexts thread) := hstages
  cases hstep with
  | @invoke state threads thread call idle =>
    have hok := hthreads thread
    simp only [idle] at hok
    obtain ⟨context, hstage, hkept, hprogram⟩ := hlinearizes.invoke hinvariant hok call
    refine ⟨⟨items, fun other ↦ stage (Function.update contexts thread context other)⟩,
      ⟨_, hkept, threadOk_update thread hthreads hprogram, rfl⟩, Or.inr ?_⟩
    rw [stage_update, hstage]
    exact .invoke call hok
  | @proceed state after threads thread call operation next running proceeds =>
    have hok := hthreads thread
    simp only [running] at hok
    obtain ⟨context, hstage, hkept, hallowed, hsame⟩ :=
      hlinearizes.proceed hinvariant hok.1 proceeds
    have hwaits : ThreadOk discipline stage returns (some ⟨call, .act operation next⟩) context :=
      ⟨hallowed, fun reply final hnext ↦ hok.2 reply final (hsame reply ▸ hnext)⟩
    have hall := threadOk_update thread hthreads hwaits
    rw [← running, Function.update_eq_self] at hall
    exact ⟨_, ⟨_, hkept, hall, (stage_update_eq_self hstage).symm⟩, Or.inl ⟨rfl, rfl⟩⟩
  | @reply state after threads thread call operation next value running replies =>
    have hok := hthreads thread
    simp only [running] at hok
    obtain ⟨context, left, hnext, hkept, hstage⟩ := hlinearizes.reply hinvariant hok.1 replies
    have hall := threadOk_update thread hthreads
      (show ThreadOk discipline stage returns (some ⟨call, next value⟩) context from
        hok.2 value context hnext)
    rcases hstage with ⟨hsame, rfl⟩ | ⟨made, result, hinvoked, hdone, heffect⟩
    · exact ⟨_, ⟨_, hkept, hall, (stage_update_eq_self hsame).symm⟩, Or.inl ⟨rfl, rfl⟩⟩
    · refine ⟨⟨left, _⟩, ⟨_, hkept, hall, rfl⟩, Or.inr ?_⟩
      rw [stage_update, hdone]
      exact .perform hinvoked heffect
  | @enter state threads thread call procedure next running =>
    have hok := hthreads thread
    simp only [running] at hok
    obtain ⟨hstage, hkept⟩ := hlinearizes.enter hinvariant hok.1
    have hbody : ThreadOk discipline stage returns
        (some ⟨call, implementation.body procedure >>= fun _ ↦ next⟩)
        (discipline.called procedure (contexts thread)) :=
      Discipline.ok_bind.mpr ((hlinearizes.body hok.1).mono fun _ final hfinal ↦ hok.2 final hfinal)
    exact ⟨_, ⟨_, hkept, threadOk_update thread hthreads hbody, (stage_update_eq_self hstage).symm⟩,
      Or.inl ⟨rfl, rfl⟩⟩
  | @respond state threads thread call result running =>
    have hok := hthreads thread
    simp only [running] at hok
    obtain ⟨hdone, context, hidle, hkept⟩ := hlinearizes.respond hinvariant hok
    refine ⟨⟨items, fun other ↦ stage (Function.update contexts thread context other)⟩,
      ⟨_, hkept, threadOk_update thread hthreads hidle, rfl⟩, Or.inr ?_⟩
    rw [stage_update, hidle]
    exact .respond hdone

omit [DecidableEq ι] in
/-- The object goes with a shared state that no thread is using. -/
theorem related_start {rest : ι → γ} (hidle : ∀ thread, stage (rest thread) = .idle)
    (hstart : invariant start items rest) :
    Related discipline stage returns invariant
      (⟨start, fun _ ↦ none⟩ : Implementation.Config signature ι τ Call Result)
      ⟨items, fun _ ↦ .idle⟩ :=
  ⟨rest, hstart, hidle, (funext hidle).symm⟩

/-- Every history that an implementation shows is linearizable, in an order that leaves the object
in a state that goes with the shared one. -/
theorem shows (hlinearizes : Linearizes implementation object discipline stage returns invariant)
    {rest : ι → γ} (hidle : ∀ thread, stage (rest thread) = .idle)
    (hstart : invariant start items rest) (hshows : implementation.Shows start history config) :
    ∃ order next, Related discipline stage returns invariant config next ∧
      Linearization object items history order next.items := by
  have hfollowed : ∃ order next, Related discipline stage returns invariant config next ∧
      Follows object items history order next.items next.stages := by
    induction hshows with
    | nil => exact ⟨[], _, related_start hidle hstart, follows_nil object items⟩
    | snoc earlier steps ih =>
      obtain ⟨order, before, hrelated, hfollows⟩ := ih
      obtain ⟨next, hnext, ⟨rfl, rfl⟩ | hstep⟩ := hlinearizes.simulates steps hrelated
      · rw [List.append_nil]
        exact ⟨order, next, hnext, hfollows⟩
      · obtain ⟨more, hmore⟩ := hstep.follows hfollows
        exact ⟨order ++ more, next, hnext, hmore⟩
  obtain ⟨order, next, hrelated, hfollows⟩ := hfollowed
  exact ⟨order, next, hrelated, hfollows.linearization⟩

end Linearizes

end KoboldKhat.Library
