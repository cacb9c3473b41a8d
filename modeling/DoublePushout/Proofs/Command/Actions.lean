import DoublePushout.Command.Run
import DoublePushout.Proofs.Steps

/-!
# `DoublePushout.Proofs.Command.Actions`: what the parts of a command do

A command is an `Action`: it changes a console and gives a result or fails. `run_bind_ok` and
`run_bind_error` take a sequence apart.

Nothing is printed before everything else has succeeded. This is carried by two predicates: a
`Mute` action never prints, and one that is `MuteOnFailure` has printed nothing when it fails. The
second holds of a mute action followed by others for which it holds, and so of every task
(`muteOnFailure_perform`). `stdout_of_exit_eq_one` is the statement for the whole program.
-/

set_option autoImplicit false

namespace DoublePushout.Command

open DoublePushout.Json (Wording)

namespace Action

variable {α β : Type} {a : Action α} {f : α → Action β} {c c' : Console}

/-! ### Sequences -/

/-- What follows an action that gives a value goes on with the value, on the console it has
left. -/
theorem run_bind_ok {x : α} (h : a.run.run c = (.ok x, c')) :
    (a >>= f).run.run c = (f x).run.run c' := by
  show (ExceptT.bindCont f (a.run.run c).1).run (a.run.run c).2 = _
  rw [h]
  rfl

/-- Nothing follows an action that fails. -/
theorem run_bind_error {e : Failure CommandError} (h : a.run.run c = (.error e, c')) :
    (a >>= f).run.run c = (.error e, c') := by
  show (ExceptT.bindCont f (a.run.run c).1).run (a.run.run c).2 = _
  rw [h]
  rfl

/-! ### Printing -/

/-- Nothing is printed. -/
def Mute (a : Action α) : Prop := ∀ c, (a.run.run c).2.stdout = c.stdout

/-- Nothing is printed by a run that fails. -/
def MuteOnFailure (a : Action α) : Prop :=
  ∀ c e c', a.run.run c = (.error e, c') → c'.stdout = c.stdout

/-- An action that prints nothing prints nothing when it fails. -/
theorem Mute.onFailure (h : Mute a) : MuteOnFailure a := by
  intro c e c' hrun
  have hmute := h c
  rw [hrun] at hmute
  exact hmute

/-- Actions that print nothing print nothing one after the other. -/
theorem Mute.bind (ha : Mute a) (hf : ∀ x, Mute (f x)) : Mute (a >>= f) := by
  -- If the first action fails it is the last one.
  intro c
  obtain ⟨r, c', hrun⟩ : ∃ r c', a.run.run c = (r, c') := ⟨_, _, rfl⟩
  have hfirst := ha c
  rw [hrun] at hfirst
  cases r with
  | error e =>
    rw [run_bind_error hrun]
    exact hfirst
  | ok x =>
    rw [run_bind_ok hrun]
    exact (hf x c').trans hfirst

/-- Before the last action nothing is printed, so it decides what a failure has printed. -/
theorem Mute.bind_onFailure (ha : Mute a) (hf : ∀ x, MuteOnFailure (f x)) :
    MuteOnFailure (a >>= f) := by
  intro c e c₂ hfails
  obtain ⟨r, c₁, hrun⟩ : ∃ r c', a.run.run c = (r, c') := ⟨_, _, rfl⟩
  have hfirst := ha c
  rw [hrun] at hfirst
  cases r with
  | error e' =>
    rw [run_bind_error hrun] at hfails
    cases hfails
    exact hfirst
  | ok x =>
    rw [run_bind_ok hrun] at hfails
    exact (hf x c₁ e c₂ hfails).trans hfirst

/-- Giving a value prints nothing. -/
theorem mute_pure (x : α) : Mute (pure x : Action α) := fun _ => rfl

/-- Neither does a refusal. -/
theorem mute_refuse (e : CommandError) : Mute (refuse e : Action α) := fun _ => rfl

/-- Events are kept apart from what is printed. -/
theorem mute_report (events : List Event) : Mute (report events) := fun _ => rfl

/-- Reading prints nothing. -/
theorem mute_read (source : Input) : Mute (read source) := by
  cases source <;> exact fun _ => rfl

/-- Taking the result of an operation prints nothing, whether there is one or not. -/
theorem mute_result {ε : Type} (g : ε → CommandError) (r : Except (Failure ε) α) :
    Mute (result g r) := by
  cases r <;> exact fun _ => rfl

/-- This holds for operations that can only fault as well. -/
theorem mute_guarded (r : Except Fault α) : Mute (guarded r) := by
  cases r <;> exact fun _ => rfl

/-- Reading a graph prints nothing. -/
theorem mute_readGraph (source : Input) : Mute (readGraph source) := by
  refine (mute_read source).bind fun text => ?_
  split
  · exact mute_refuse _
  · split
    · exact mute_refuse _
    · exact mute_pure _

/-- Reading a rule prints nothing. -/
theorem mute_readRule (source : Input) : Mute (readRule source) := by
  refine (mute_readGraph source).bind fun g => (mute_report _).bind fun _ => ?_
  split
  · exact mute_refuse _
  · exact mute_pure _

/-- Beginning a search prints nothing. -/
theorem mute_search (pattern target : Graph) (injective : Bool) :
    Mute (search pattern target injective) := by
  unfold search
  split
  · exact (mute_refuse _).bind fun _ => mute_guarded _
  · exact mute_guarded _

/-- Writing prints, but does not fail. -/
theorem muteOnFailure_write (output : Output) (v : Json.Value) :
    MuteOnFailure (write output v) := by
  intro c e c' hrun
  cases hrun

/-- Matches are listed last, so a failure before that has printed nothing. -/
theorem muteOnFailure_listFound (output : Output) (limit : Option Nat) (ms : Matches) :
    MuteOnFailure (listFound output limit ms) :=
  (mute_report _).bind_onFailure fun _ => (mute_report _).bind_onFailure fun _ =>
    muteOnFailure_write output _

/-- A result is written last, so a failure before that has printed nothing. -/
theorem muteOnFailure_rewriteFound (output : Output) (rule : Rule) (target : Graph) (index : Nat)
    (ms : Matches) : MuteOnFailure (rewriteFound output rule target index ms) := by
  refine (mute_report _).bind_onFailure fun _ => ?_
  dsimp only
  split
  · exact (mute_refuse _).onFailure
  · exact (mute_report _).bind_onFailure fun _ => (mute_result _ _).bind_onFailure fun _ =>
      (mute_report _).bind_onFailure fun _ => muteOnFailure_write output _

/-- A task that fails has printed nothing. -/
theorem muteOnFailure_perform (output : Output) (task : Task) :
    MuteOnFailure (perform output task) := by
  -- Only the last action of a task writes, and it does not fail after that.
  cases task with
  | derive source =>
    exact (mute_readRule source).bind_onFailure fun _ => (mute_report _).bind_onFailure fun _ =>
      muteOnFailure_write output _
  | listRule rule target limit injective =>
    exact (mute_readRule rule).bind_onFailure fun _ => (mute_readGraph target).bind_onFailure
      fun _ => (mute_search _ _ injective).bind_onFailure fun ms =>
        muteOnFailure_listFound output limit ms
  | listPattern pattern target limit injective =>
    exact (mute_readGraph pattern).bind_onFailure fun _ => (mute_readGraph target).bind_onFailure
      fun _ => (mute_search _ _ injective).bind_onFailure fun ms =>
        muteOnFailure_listFound output limit ms
  | rewrite rule target index injective =>
    exact (mute_readRule rule).bind_onFailure fun _ => (mute_readGraph target).bind_onFailure
      fun _ => (mute_search _ _ injective).bind_onFailure fun ms =>
        muteOnFailure_rewriteFound output _ _ index ms

end Action

/-! ### Runs of the program -/

section Run

variable {ws opened : Workspace} {args : List String} {wording : Wording} {i : Invocation}
  {c : Console}

/-- What a successful command leaves behind. -/
theorem run_of_ok (hargs : Invocation.ofArguments ws args = (opened, .ok i))
    (hrun : i.run opened = (.ok (), c)) :
    run ws args wording = {
      exit := 0
      stdout := c.stdout
      stderr := i.shown c.events none
      files := c.workspace.changedSince ws } := by
  rw [run, hargs]
  dsimp only
  rw [hrun]

/-- What a command leaves behind that was refused something. -/
theorem run_of_refused {e : CommandError}
    (hargs : Invocation.ofArguments ws args = (opened, .ok i))
    (hrun : i.run opened = (.error (.refused e), c)) :
    run ws args wording = {
      exit := 1
      stdout := c.stdout
      stderr := i.shown c.events (some (e.message wording))
      files := c.workspace.changedSince ws } := by
  rw [run, hargs]
  dsimp only
  rw [hrun]

/-- A run with exit code 1 is one in which a command has been refused something. -/
theorem exists_of_exit_eq_one (h : (run ws args wording).exit = 1) :
    ∃ opened i e c, Invocation.ofArguments ws args = (opened, .ok i) ∧
      i.run opened = (.error (.refused e), c) := by
  unfold run at h
  split at h
  · cases h
  · cases h
  · cases h
  · next opened i hargs =>
    dsimp only at h
    split at h
    · cases h
    · next e houtcome => exact ⟨opened, i, e, _, hargs, Prod.ext houtcome rfl⟩
    · cases h

/-- Every run with exit code 1 leaves the standard output empty. -/
theorem stdout_of_exit_eq_one (h : (run ws args wording).exit = 1) :
    (run ws args wording).stdout = "" := by
  obtain ⟨opened, i, e, c, hargs, hrun⟩ := exists_of_exit_eq_one h
  rw [run_of_refused hargs hrun]
  exact Action.muteOnFailure_perform i.output i.task { workspace := opened } _ c hrun

end Run

end DoublePushout.Command
