import Std.Tactic.Do
import RuleCatalogue.Host

/-!
# Programs on a machine

What a program does on a machine is said by Hoare triples: if the machine is as the precondition
says, then the result and the machine afterwards are as the postcondition says.  This module gives
rules for the questions that a host answers and for printing, from which `mvcgen` goes on, and
brings triples and runs together.

## Main definitions

* `Machine.exec` runs a program that may be broken off.
* `Machine.addPrinted` and `Machine.addError` are what printing does.

## Main results

* `Machine.run_of_triple` and `Machine.exec_of_triple`: what a triple says of a run.
* `Machine.triple_attempt`: an operation on files is refused or done.
* `Machine.invariant_forM`: what each of several programs leaves true, all of them leave true.

## Design notes

Most programs leave most of the machine as it is.  That a program does so is a triple with the same
condition before and after it, for a condition that names the parts that are left: an invariant.
The host is asked through its class, so a rule is stated for each of its questions, and `mvcgen`
never looks into the instance.  Operations on files have no rule of this kind: what such an
operation does depends on whether it is refused, so a triple for it is shown where it is used
(`Machine.triple_attempt`).
-/

namespace RuleCatalogue.Machine

open Std.Do

set_option mvcgen.warning false

variable {α β ε : Type}

/-! ## Runs -/

/-- **What a program that may be broken off gives** on a machine, and the machine afterwards. -/
def exec (program : ExceptT ε (StateM Machine) α) (machine : Machine) : Except ε α × Machine :=
  StateT.run program.run machine

/-- What comes after an `Except` step runs on the machine that step left, and is skipped when it
failed; a failure keeps the machine as it was at that moment, so files replaced before it stay
replaced. -/
theorem exec_bind (x : ExceptT ε (StateM Machine) α) (f : α → ExceptT ε (StateM Machine) β)
    (machine : Machine) :
    exec (x >>= f) machine =
      match exec x machine with
      | (.ok a, after) => exec (f a) after
      | (.error e, after) => (.error e, after) := by
  rw [exec, ExceptT.run_bind, StateT.run_bind]
  rcases hx : exec x machine with ⟨result, after⟩
  rw [exec] at hx
  rw [hx]
  cases result with
  | ok a => rfl
  | error e => rfl

/-- A request that cannot fail is run as it stands and always returns. -/
theorem exec_liftM (x : StateM Machine α) (machine : Machine) :
    exec (liftM x : ExceptT ε (StateM Machine) α) machine
      = (.ok (x.run machine).1, (x.run machine).2) :=
  rfl

/-- A result computed before the request never touches the machine. -/
theorem exec_ofExcept (result : Except ε α) (machine : Machine) :
    exec (ofExcept result : ExceptT ε (StateM Machine) α) machine = (result, machine) := by
  cases result with
  | ok a => rfl
  | error e => rfl

/-- Returning a value leaves the machine as it was. -/
@[simp] theorem exec_pure (a : α) (machine : Machine) :
    exec (pure a : ExceptT ε (StateM Machine) α) machine = (.ok a, machine) :=
  rfl

/-- Failing leaves the machine as it was. -/
@[simp] theorem exec_throw (e : ε) (machine : Machine) :
    exec (throw e : ExceptT ε (StateM Machine) α) machine = (.error e, machine) :=
  rfl

/-- The one way a machine's files change: the operation on the workspace is done whole, or its fault
is returned and the machine keeps its files. -/
theorem run_attempt (f : Workspace → Except FileFault Workspace) (machine : Machine) :
    (attempt f).run machine =
      match f machine.toWorkspace with
      | .error fault => (.error fault, machine)
      | .ok w => (.ok (), { machine with toWorkspace := w }) := by
  unfold attempt
  rw [StateT.run_bind]
  cases h : f machine.toWorkspace <;> simp [h] <;> rfl

/-- **What a triple says of one run.** The triples of the library speak of all states at once; a
claim is about the run from one machine. -/
theorem run_of_triple {P : Machine → Prop} {Q : α → Machine → Prop} {x : StateM Machine α}
    (h : ⦃fun s => ⌜P s⌝⦄ x ⦃⇓ a s => ⌜Q a s⌝⦄) {machine : Machine} (hmachine : P machine) :
    Q (x.run machine).1 (x.run machine).2 :=
  h machine hmachine

/-- A triple is shown by running the program on every machine that is as the precondition says. -/
theorem triple_of_run {P : Machine → Prop} {Q : α → Machine → Prop} {x : StateM Machine α}
    (h : ∀ machine, P machine → Q (x.run machine).1 (x.run machine).2) :
    ⦃fun s => ⌜P s⌝⦄ x ⦃⇓ a s => ⌜Q a s⌝⦄ :=
  h

section Exec

variable {P : Machine → Prop} {Q : α → Machine → Prop} {E : ε → Machine → Prop}
  {x : ExceptT ε (StateM Machine) α} {machine after : Machine}

/-- What has to hold before a run is what its result and the machine it leaves are asked for. -/
theorem wp_eq (Q : PostCond α (.except ε (.arg Machine .pure))) (machine : Machine) :
    wp⟦x⟧ Q machine
      = (match (exec x machine).1 with
        | .ok a => Q.1 a
        | .error e => Q.2.1 e) (exec x machine).2 :=
  rfl

/-- A triple over the exception monad read as a statement about `exec`, for the proofs that compute
with a run instead of walking through its program. -/
theorem triple_iff_exec :
    ⦃fun s => ⌜P s⌝⦄ x ⦃post⟨fun a s => ⌜Q a s⌝, fun e s => ⌜E e s⌝⟩⦄
      ↔ ∀ machine, P machine →
        match exec x machine with
        | (.ok a, after) => Q a after
        | (.error e, after) => E e after := by
  refine forall_congr' fun machine => imp_congr_right fun _ => ?_
  show (wp⟦x⟧ _ machine).down ↔ _
  rw [wp_eq]
  rcases exec x machine with ⟨result, after⟩
  cases result with
  | ok a => exact Iff.rfl
  | error e => exact Iff.rfl

/-- **What a triple says of one run that may be broken off**: one thing if it comes to its end, and
another if it does not.  The `match` is on the result of `exec`, so a proof may go on by cases on
it. -/
theorem exec_of_triple (h : ⦃fun s => ⌜P s⌝⦄ x ⦃post⟨fun a s => ⌜Q a s⌝, fun e s => ⌜E e s⌝⟩⦄)
    (hmachine : P machine) :
    match exec x machine with
    | (.ok a, after) => Q a after
    | (.error e, after) => E e after :=
  triple_iff_exec.mp h machine hmachine

/-- What two triples say of a program holds together. -/
theorem triple_and {P' : Machine → Prop} {Q' : α → Machine → Prop} {E' : ε → Machine → Prop}
    (h : ⦃fun s => ⌜P s⌝⦄ x ⦃post⟨fun a s => ⌜Q a s⌝, fun e s => ⌜E e s⌝⟩⦄)
    (h' : ⦃fun s => ⌜P' s⌝⦄ x ⦃post⟨fun a s => ⌜Q' a s⌝, fun e s => ⌜E' e s⌝⟩⦄) :
    ⦃fun s => ⌜P s ∧ P' s⌝⦄ x
    ⦃post⟨fun a s => ⌜Q a s ∧ Q' a s⌝, fun e s => ⌜E e s ∧ E' e s⌝⟩⦄ :=
  Triple.and x h h'

/-- A triple says what follows from it. -/
theorem triple_mono {P' : Machine → Prop} {Q' : α → Machine → Prop} {E' : ε → Machine → Prop}
    (h : ⦃fun s => ⌜P s⌝⦄ x ⦃post⟨fun a s => ⌜Q a s⌝, fun e s => ⌜E e s⌝⟩⦄)
    (hP : ∀ s, P' s → P s) (hQ : ∀ a s, Q a s → Q' a s) (hE : ∀ e s, E e s → E' e s) :
    ⦃fun s => ⌜P' s⌝⦄ x ⦃post⟨fun a s => ⌜Q' a s⌝, fun e s => ⌜E' e s⌝⟩⦄ := by
  refine triple_iff_exec.mpr fun start hstart => ?_
  have hresult := exec_of_triple h (hP start hstart)
  rcases hexec : exec x start with ⟨result, after⟩
  rw [hexec] at hresult
  cases result with
  | ok a => exact hQ a after hresult
  | error e => exact hE e after hresult

end Exec

/-! ## Rules for results that may be errors -/

/-- The rule for a block given by its `Except` value: the two postconditions are chosen by what it
returns. The library states it for `run` only. -/
@[spec]
theorem spec_mk {α ε : Type} (x : StateM Machine (Except ε α))
    {Q : PostCond α (.except ε (.arg Machine .pure))} :
    ⦃wp⟦x⟧ (fun result => match result with | .ok a => Q.1 a | .error e => Q.2.1 e, Q.2.2)⦄
    (ExceptT.mk x : ExceptT ε (StateM Machine) α) ⦃Q⦄ :=
  fun _ h => h

/-- The rule for a request that cannot fail inside one that can; it never reaches the postcondition
of failures. -/
@[spec]
theorem spec_lift {α ε : Type} (x : StateM Machine α)
    {Q : PostCond α (.except ε (.arg Machine .pure))} :
    ⦃wp⟦x⟧ (Q.1, Q.2.2)⦄ (ExceptT.lift x : ExceptT ε (StateM Machine) α) ⦃Q⦄ :=
  fun _ h => h

/-- What a program does is not changed by what its errors are turned into. -/
theorem triple_adapt {δ : Type} {P : Machine → Prop} {Q : α → Machine → Prop}
    {E : ε → Machine → Prop} {x : ExceptT ε (StateM Machine) α}
    (h : ⦃fun s => ⌜P s⌝⦄ x ⦃post⟨fun a s => ⌜Q a s⌝, fun e s => ⌜E e s⌝⟩⦄) (f : ε → δ) :
    ⦃fun s => ⌜P s⌝⦄ x.adapt f
    ⦃post⟨fun a s => ⌜Q a s⌝, fun d s => ⌜∃ e, d = f e ∧ E e s⌝⟩⦄ := by
  refine triple_iff_exec.mpr fun machine hmachine => ?_
  have hadapt : exec (x.adapt f) machine
      = ((exec x machine).1.mapError f, (exec x machine).2) := by
    rw [exec, ExceptT.run_adapt, StateT.run_map]
    rfl
  have hresult := exec_of_triple h hmachine
  rw [hadapt]
  rcases hexec : exec x machine with ⟨result, after⟩
  rw [hexec] at hresult
  cases result with
  | ok a => exact hresult
  | error e => exact ⟨e, rfl, hresult⟩

/-! ## Rules for questions and for printing -/

/-- Looking at the files leaves every part of the machine unchanged. -/
@[spec]
theorem spec_look {α : Type} (f : Workspace → α) {Q : PostCond α (.arg Machine .pure)} :
    ⦃fun s => Q.1 (f s.toWorkspace) s⦄ look f ⦃Q⦄ := by
  mvcgen [look]

/-- Reading gives what the workspace answers and changes nothing. -/
@[spec]
theorem spec_read (p : Path) {Q : PostCond (Except FileFault Octets) (.arg Machine .pure)} :
    ⦃fun s => Q.1 (s.read p) s⦄ (Host.read p : StateM Machine _) ⦃Q⦄ :=
  spec_look (·.read p)

/-- Asking whether a path is a directory changes nothing. -/
@[spec]
theorem spec_isDirectory (p : Path) {Q : PostCond Bool (.arg Machine .pure)} :
    ⦃fun s => Q.1 (s.isDirectory p) s⦄ (Host.isDirectory p : StateM Machine _) ⦃Q⦄ :=
  spec_look (·.isDirectory p)

/-- Resolving a path without reading it changes nothing. -/
@[spec]
theorem spec_check (p : Path) {Q : PostCond (Except FileFault Unit) (.arg Machine .pure)} :
    ⦃fun s => Q.1 (s.check p) s⦄ (Host.check p : StateM Machine _) ⦃Q⦄ :=
  spec_look (·.check p)

/-- Listing a directory changes nothing. -/
@[spec]
theorem spec_fileNames (p : Path) {Q : PostCond (List String) (.arg Machine .pure)} :
    ⦃fun s => Q.1 (s.fileNames p) s⦄ (Host.fileNames p : StateM Machine _) ⦃Q⦄ :=
  spec_look (·.fileNames p)

/-- The working directory is part of the machine, and no request of the program moves it. -/
@[spec]
theorem spec_workingDirectory {Q : PostCond Path (.arg Machine .pure)} :
    ⦃fun s => Q.1 ⟨.root, s.directory⟩ s⦄ (Host.workingDirectory : StateM Machine _) ⦃Q⦄ := by
  mvcgen [Host.workingDirectory]

/-- The environment is read as it was when the program started. -/
@[spec]
theorem spec_environment {Q : PostCond Environment (.arg Machine .pure)} :
    ⦃fun s => Q.1 s.environment s⦄ (Host.environment : StateM Machine _) ⦃Q⦄ := by
  mvcgen [Host.environment]

/-- Every call of one run gets the same time: the model has one moment per run. -/
@[spec]
theorem spec_timestamp {Q : PostCond String (.arg Machine .pure)} :
    ⦃fun s => Q.1 s.timestamp s⦄ (Host.timestamp : StateM Machine _) ⦃Q⦄ := by
  mvcgen [Host.timestamp]

/-- The identifier of the run is given by the machine and not drawn here. -/
@[spec]
theorem spec_newRunId {Q : PostCond String (.arg Machine .pure)} :
    ⦃fun s => Q.1 s.runId s⦄ (Host.newRunId : StateM Machine _) ⦃Q⦄ := by
  mvcgen [Host.newRunId]

/-- The name of a temporary file is given by the machine; that it names no existing file is a
hypothesis where it matters. -/
@[spec]
theorem spec_spareName {Q : PostCond String (.arg Machine .pure)} :
    ⦃fun s => Q.1 s.spareName s⦄ (Host.spareName : StateM Machine _) ⦃Q⦄ := by
  mvcgen [Host.spareName]

/-- Whether the second stream is a terminal is read from the machine. -/
@[spec]
theorem spec_errorsAtTerminal {Q : PostCond Bool (.arg Machine .pure)} :
    ⦃fun s => Q.1 s.errorsAtTerminal s⦄ (Host.errorsAtTerminal : StateM Machine _) ⦃Q⦄ := by
  mvcgen [Host.errorsAtTerminal]

/-- A machine on which one more text has been printed. -/
def addPrinted (machine : Machine) (text : String) : Machine :=
  { machine with printed := machine.printed ++ text }

/-- A machine on which one more text has been printed as an error. -/
def addError (machine : Machine) (text : String) : Machine :=
  { machine with printedErrors := machine.printedErrors ++ text }

/-- **Printing can fail.** A text that the encoding of the stream refuses adds nothing to what was
printed, and leaves the files alone. -/
@[spec]
theorem spec_print (text : String)
    {Q : PostCond (Except PrintFault Unit) (.arg Machine .pure)} :
    ⦃fun s => match s.refuses s.printed text with
      | some fault => Q.1 (.error fault) s
      | none => Q.1 (.ok ()) (s.addPrinted text)⦄
    (Host.print text : StateM Machine _) ⦃Q⦄ := by
  mvcgen [Host.print, Machine.print] <;> simp_all [addPrinted]

/-- The stream of errors never refuses a text: it writes what it cannot encode with backslashes. -/
@[spec]
theorem spec_printError (text : String) {Q : PostCond Unit (.arg Machine .pure)} :
    ⦃fun s => Q.1 () (s.addError text)⦄ (Host.printError text : StateM Machine _) ⦃Q⦄ :=
  fun _ h => h

/-! ## Operations on files -/

section Attempts

variable {f : Workspace → Except FileFault Workspace} {P I : Machine → Prop}

/-- **An operation on files is refused or done**, and what holds afterwards is shown for either.
All requests that change files go through `attempt`, so this is the one rule for them. -/
theorem triple_attempt {Q : Except FileFault Unit → Machine → Prop}
    (hrefused : ∀ machine fault, P machine → f machine.toWorkspace = .error fault →
      Q (.error fault) machine)
    (hdone : ∀ machine w, P machine → f machine.toWorkspace = .ok w →
      Q (.ok ()) { machine with toWorkspace := w }) :
    ⦃fun s => ⌜P s⌝⦄ attempt f ⦃⇓ result s => ⌜Q result s⌝⦄ := by
  intro machine hmachine
  show Q ((attempt f).run machine).1 ((attempt f).run machine).2
  rw [run_attempt]
  cases hresult : f machine.toWorkspace with
  | error fault => exact hrefused machine fault hmachine hresult
  | ok w => exact hdone machine w hmachine hresult

/-- **It leaves true** what its successes leave true: a refusal changes nothing, so nothing has to
be shown of it. -/
theorem invariant_attempt
    (h : ∀ machine w, I machine → f machine.toWorkspace = .ok w →
      I { machine with toWorkspace := w }) :
    ⦃fun s => ⌜I s⌝⦄ attempt f ⦃⇓ _ s => ⌜I s⌝⦄ :=
  triple_attempt (fun _ _ hmachine _ => hmachine) h

end Attempts

/-! ## Programs one after another -/

section Loops

variable {m : Type → Type} {shape : PostShape} [Monad m] [WPMonad m shape]
  {I : Assertion shape} {E : ExceptConds shape}

/-- **Programs one after another** leave true what each of them leaves true.  The postcondition `E`
of a failure is that of the program that failed. -/
theorem invariant_forM {f : α → m PUnit} (hf : ∀ a, ⦃I⦄ f a ⦃(fun _ => I, E)⦄) (l : List α) :
    ⦃I⦄ l.forM f ⦃(fun _ => I, E)⦄ := by
  induction l with
  | nil => exact Triple.pure _ SPred.entails.rfl
  | cons a rest ih => exact Triple.bind (f a) (fun _ => rest.forM f) (hf a) fun _ => ih

/-- An invariant that every element keeps is kept by the whole walk; when the walk stops at a
failure, the failure's postcondition is the one of the element that failed. -/
theorem invariant_mapM {f : α → m β} (hf : ∀ a, ⦃I⦄ f a ⦃(fun _ => I, E)⦄)
    (l : List α) : ⦃I⦄ l.mapM f ⦃(fun _ => I, E)⦄ := by
  induction l with
  | nil => exact Triple.pure _ SPred.entails.rfl
  | cons a rest ih =>
    rw [List.mapM_cons]
    mvcgen [hf, ih]

end Loops

end RuleCatalogue.Machine
