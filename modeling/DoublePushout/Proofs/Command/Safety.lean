import DoublePushout.Proofs.Command.Agreement
import DoublePushout.Proofs.Matching.Safety
import DoublePushout.Proofs.Rule.Assembly
import DoublePushout.Proofs.Rule.Pushout

/-!
# `DoublePushout.Proofs.Command.Safety`: no command faults

Two things are shown of every command, whatever its inputs hold.

* It could as well be run with everything checked that the library leaves unchecked.
  `Action.checkedPerform` derives its rule in one pass over tables that are read and written at
  handles from the graph, reads the tables of a search through `entry`, and adds the edges of a
  result one by one. Any of these may fault. `Action.checkedPerform_eq` says that it does what
  `Action.perform` does, so none of them ever decides anything.
* What is left are the faults of the operations themselves. `Action.Gives` says of a part of a
  command that it does not fault, and what holds of its result. Graphs are valid once they are
  read, rules are well-formed once they are derived, and with that neither a search nor a rewrite
  faults.

`commands_never_fault` puts these together.
-/

set_option autoImplicit false

namespace DoublePushout

/-- Applies the rule at a match, and adds the edges of the result one by one. -/
def Rule.checkedApply (r : Rule) (target : Graph) (m : Mapping) :
    Except (Failure ApplyError) Graph := do
  let result ← r.apply target m
  orFault (Graph.grow result.nodes result.edges)

/-- Adding the edges of a result one by one changes nothing. -/
theorem Rule.checkedApply_eq (r : Rule) (target : Graph) (m : Mapping) :
    r.checkedApply target m = r.apply target m := by
  rw [checkedApply]
  cases h : r.apply target m with
  | error e => rfl
  | ok result =>
    show orFault (Graph.grow result.nodes result.edges) = _
    rw [grow_of_apply h]
    rfl

namespace Command

namespace Action

/-! ### Commands with their accesses checked -/

/-- Reads a rule, which is derived in one pass. -/
def checkedReadRule (source : Input) : Action Rule := do
  let g ← readGraph source
  match g.assemble with
  | .error (.fault x) => throw (.fault x)
  | .error (.refused e) => do
    report (Event.ofDerivation (.error e))
    refuse (.rule e)
  | .ok d => do
    report (Event.ofDerivation (.ok d))
    return d.rule

/-- Lists the matches that a search finds. -/
def checkedListFound (output : Output) (limit : Option Nat) (ms : Matches) : Action Unit := do
  let found ← guarded <| match limit with
    | none => ms.checkedToList
    | some n => do return (← ms.checkedTake n).1
  report (Event.ofMatches found)
  report [.matchesReported found.length]
  write output (.list (found.map Mapping.schema.write))

/-- Rewrites a graph at the match with a number that a search finds. -/
def checkedRewriteFound (output : Output) (rule : Rule) (target : Graph) (index : Nat)
    (ms : Matches) : Action Unit := do
  let (passed, chosen, _) ← guarded (ms.checkedNth index)
  report (Event.ofMatches (passed ++ chosen.toList))
  match chosen with
  | none => refuse (.noMatch index passed.length)
  | some m =>
    let applied := rule.checkedApply target m
    report (Event.ofApply target applied)
    let g ← result .apply applied
    report [.rewriteReported index g]
    write output (Graph.schema.write g)

/-- Does a task. -/
def checkedPerform (output : Output) : Task → Action Unit
  | .derive source => do
    let rule ← checkedReadRule source
    report [.ruleReported rule]
    write output (Rule.schema.write rule)
  | .listRule rule target limit injective => do
    let rule ← checkedReadRule rule
    let target ← readGraph target
    checkedListFound output limit (← search rule.lhs target injective)
  | .listPattern pattern target limit injective => do
    let pattern ← readGraph pattern
    let target ← readGraph target
    checkedListFound output limit (← search pattern target injective)
  | .rewrite rule target index injective => do
    let rule ← checkedReadRule rule
    let target ← readGraph target
    checkedRewriteFound output rule target index (← search rule.lhs target injective)

/-! ### The checks decide nothing -/

/-- Deriving a rule in one pass changes nothing. -/
theorem checkedReadRule_eq (source : Input) : checkedReadRule source = readRule source := by
  refine congrArg (readGraph source >>= ·) (funext fun g => ?_)
  rw [g.assemble_eq]
  cases g.toRule with
  | error e => rfl
  | ok d => rfl

/-- Reading the tables of a live search with care changes nothing about what is listed. -/
theorem checkedListFound_eq {ms : Matches} (h : ms.Live) (output : Output) (limit : Option Nat) :
    checkedListFound output limit ms = listFound output limit ms := by
  cases limit with
  | none =>
    rw [checkedListFound, h.checkedToList_eq]
    rfl
  | some n =>
    rw [checkedListFound, (h.checkedTake_eq n).1]
    rfl

/-- Nor does it change anything about what is rewritten. -/
theorem checkedRewriteFound_eq {ms : Matches} (h : ms.Live) (output : Output) (rule : Rule)
    (target : Graph) (index : Nat) :
    checkedRewriteFound output rule target index ms =
      rewriteFound output rule target index ms := by
  rw [checkedRewriteFound, h.checkedNth_eq, rewriteFound]
  simp only [Rule.checkedApply_eq]
  rfl

/-- What is done with a search that has begun need agree on live searches only. -/
theorem search_bind_congr {α : Type} {f g : Matches → Action α} (pattern target : Graph)
    (injective : Bool) (h : ∀ ms : Matches, ms.Live → f ms = g ms) :
    (search pattern target injective >>= f) = (search pattern target injective >>= g) := by
  rw [search]
  by_cases hempty : pattern.nodes.isEmpty = true
  · -- An empty pattern is refused, so what comes after the search is not reached.
    rw [if_pos hempty]
    rfl
  · rw [if_neg hempty]
    cases hstart : Query.of pattern target injective >>= Matches.start with
    | error x => rfl
    | ok ms => exact h ms (Matches.live_of_start hstart)

/-- A task with its accesses checked is the task. -/
theorem checkedPerform_eq (output : Output) (task : Task) :
    checkedPerform output task = perform output task := by
  -- What is read before the search is the same, and what is found is used alike.
  cases task with
  | derive source => rw [checkedPerform, checkedReadRule_eq, perform]
  | listRule rule target limit injective =>
    rw [checkedPerform, checkedReadRule_eq]
    refine congrArg (readRule rule >>= ·) (funext fun r => ?_)
    refine congrArg (readGraph target >>= ·) (funext fun g => ?_)
    exact search_bind_congr r.lhs g injective fun ms hms => checkedListFound_eq hms output limit
  | listPattern pattern target limit injective =>
    refine congrArg (readGraph pattern >>= ·) (funext fun p => ?_)
    refine congrArg (readGraph target >>= ·) (funext fun g => ?_)
    exact search_bind_congr p g injective fun ms hms => checkedListFound_eq hms output limit
  | rewrite rule target index injective =>
    rw [checkedPerform, checkedReadRule_eq]
    refine congrArg (readRule rule >>= ·) (funext fun r => ?_)
    refine congrArg (readGraph target >>= ·) (funext fun g => ?_)
    exact search_bind_congr r.lhs g injective fun ms hms =>
      checkedRewriteFound_eq hms output r g index

/-! ### No operation faults -/

variable {α β : Type} {a : Action α} {f : α → Action β} {P : α → Prop} {Q : β → Prop}

/-- The action does not fault on any console, and what it gives has the property. -/
def Gives (a : Action α) (P : α → Prop) : Prop :=
  ∀ c, FaultFree (a.run.run c).1 ∧ ∀ x, (a.run.run c).1 = .ok x → P x

/-- What an action gives is what the next one needs. -/
theorem Gives.bind (ha : Gives a P) (hf : ∀ x, P x → Gives (f x) Q) : Gives (a >>= f) Q := by
  -- If the first action fails it is the last one, and it has not faulted.
  intro c
  obtain ⟨r, c', hrun⟩ : ∃ r c', a.run.run c = (r, c') := ⟨_, _, rfl⟩
  obtain ⟨hfault, hgives⟩ := ha c
  rw [hrun] at hfault hgives
  cases r with
  | error e =>
    rw [run_bind_error hrun]
    refine ⟨fun fault h => ?_, fun x h => ?_⟩
    · cases h
      exact hfault fault rfl
    · cases h
  | ok x =>
    rw [run_bind_ok hrun]
    exact hf x (hgives x rfl) c'

/-- A value is given without a fault. -/
theorem gives_pure {x : α} (h : P x) : Gives (pure x) P := by
  refine fun c => ⟨.ok x, fun y hy => ?_⟩
  cases hy
  exact h

/-- A refusal is no fault, and it gives nothing. -/
theorem gives_refuse (e : CommandError) : Gives (refuse e) P := by
  refine fun c => ⟨.refused e, fun y hy => ?_⟩
  cases hy

/-- Reporting does not fault. -/
theorem gives_report (events : List Event) : Gives (report events) fun _ => True :=
  fun _ => ⟨.ok (), fun _ _ => trivial⟩

/-- Writing does not fault. -/
theorem gives_write (output : Output) (v : Json.Value) : Gives (write output v) fun _ => True :=
  fun _ => ⟨.ok (), fun _ _ => trivial⟩

/-- Reading a text does not fault. -/
theorem gives_read (source : Input) : Gives (read source) fun _ => True := by
  cases source with
  | standard => exact fun c => ⟨.ok c.workspace.stdin, fun _ _ => trivial⟩
  | file path => exact fun c => ⟨.ok ((c.workspace.find? path).getD ""), fun _ _ => trivial⟩

/-- Taking the result of an operation that does not fault is free of faults. -/
theorem gives_result {ε : Type} (g : ε → CommandError) {r : Except (Failure ε) α}
    (h : FaultFree r) : Gives (result g r) fun _ => True := by
  cases r with
  | ok x => exact gives_pure trivial
  | error e =>
    cases e with
    | refused e => exact gives_refuse (g e)
    | fault fault => exact absurd rfl (h fault)

/-- A graph that is read is valid. -/
theorem gives_readGraph (source : Input) : Gives (readGraph source) Graph.Valid := by
  refine (gives_read source).bind fun text _ => ?_
  cases Graph.schema.readText text with
  | error e => exact gives_refuse (.unreadable _ e)
  | ok g =>
    dsimp only
    cases hvalid : g.validate with
    | error e => exact gives_refuse (.graph e)
    | ok u => exact gives_pure (Graph.validate_eq_ok_iff.1 hvalid)

/-- A rule that is read is well-formed. -/
theorem gives_readRule (source : Input) : Gives (readRule source) Rule.WellFormed := by
  refine (gives_readGraph source).bind fun g _ => (gives_report _).bind fun _ _ => ?_
  cases hd : g.toRule with
  | error e => exact gives_refuse (.rule e)
  | ok d => exact gives_pure (Graph.toRule_wellFormed hd)

/-- A search for a valid pattern does not fault: one without nodes is refused. -/
theorem gives_search {pattern : Graph} (hpattern : pattern.Valid) (target : Graph)
    (injective : Bool) : Gives (search pattern target injective) fun _ => True := by
  by_cases hempty : pattern.nodes.isEmpty = true
  · -- A refusal gives nothing, so that the search after it need not be looked at.
    rw [search, if_pos hempty]
    exact (gives_refuse (P := fun _ => False) .emptyPattern).bind fun _ h => h.elim
  · have hne : pattern.nodes ≠ [] := fun h => hempty (List.isEmpty_iff.2 h)
    obtain ⟨ms, -, hrun⟩ := search_run target injective hne hpattern.ends_lt
    intro c
    rw [hrun c]
    exact ⟨.ok ms, fun _ _ => trivial⟩

/-- Listing matches does not fault. -/
theorem gives_listFound (output : Output) (limit : Option Nat) (ms : Matches) :
    Gives (listFound output limit ms) fun _ => True :=
  (gives_report _).bind fun _ _ => (gives_report _).bind fun _ _ => gives_write output _

/-- A well-formed rule is applied to a valid target without a fault, whichever match is chosen. -/
theorem gives_rewriteFound {rule : Rule} {target : Graph} (hrule : rule.WellFormed)
    (htarget : target.Valid) (output : Output) (index : Nat) (ms : Matches) :
    Gives (rewriteFound output rule target index ms) fun _ => True := by
  rw [rewriteFound]
  generalize ms.nth index = found
  obtain ⟨passed, chosen, rest⟩ := found
  refine (gives_report _).bind fun _ _ => ?_
  cases chosen with
  | none => exact gives_refuse _
  | some m =>
    exact (gives_report _).bind fun _ _ =>
      (gives_result .apply (Rule.apply_faultFree hrule htarget)).bind fun g _ =>
        (gives_report _).bind fun _ _ => gives_write output _

/-- No task faults. -/
theorem gives_perform (output : Output) (task : Task) :
    Gives (perform output task) fun _ => True := by
  -- What each part needs of its inputs, that graphs are valid and rules well-formed, is what the
  -- parts before it give.
  cases task with
  | derive source =>
    exact (gives_readRule source).bind fun rule _ => (gives_report _).bind fun _ _ =>
      gives_write output _
  | listRule rule target limit injective =>
    exact (gives_readRule rule).bind fun r hr => (gives_readGraph target).bind fun g _ =>
      (gives_search hr.lhs_valid g injective).bind fun ms _ => gives_listFound output limit ms
  | listPattern pattern target limit injective =>
    exact (gives_readGraph pattern).bind fun p hp => (gives_readGraph target).bind fun g _ =>
      (gives_search hp g injective).bind fun ms _ => gives_listFound output limit ms
  | rewrite rule target index injective =>
    exact (gives_readRule rule).bind fun r hr => (gives_readGraph target).bind fun g hg =>
      (gives_search hr.lhs_valid g injective).bind fun ms _ =>
        gives_rewriteFound hr hg output index ms

end Action

/-- Runs a command with its accesses checked. -/
def Invocation.checkedRun (i : Invocation) (ws : Workspace) :
    Except (Failure CommandError) Unit × Console :=
  (Action.checkedPerform i.output i.task).run.run { workspace := ws }

/-- No command faults, whatever its inputs hold, nor does it when its accesses are checked. So
every command that is run ends with exit code 0 or 1. -/
theorem commands_never_fault :
    (∀ (i : Invocation) (ws : Workspace), i.checkedRun ws = i.run ws ∧ FaultFree (i.run ws).1) ∧
    ∀ (ws opened : Workspace) (args : List String) (wording : Json.Wording) (i : Invocation),
      Invocation.ofArguments ws args = (opened, .ok i) →
      (run ws args wording).exit = 0 ∨ (run ws args wording).exit = 1 := by
  have hfree : ∀ (i : Invocation) (ws : Workspace), FaultFree (i.run ws).1 :=
    fun i ws => (Action.gives_perform i.output i.task { workspace := ws }).1
  refine ⟨fun i ws => ⟨?_, hfree i ws⟩, fun ws opened args wording i hargs => ?_⟩
  · rw [Invocation.checkedRun, Action.checkedPerform_eq]
    rfl
  · obtain ⟨r, c, hrun⟩ : ∃ r c, i.run opened = (r, c) := ⟨_, _, rfl⟩
    have hfault := hfree i opened
    rw [hrun] at hfault
    -- The run has refused something or has gone through, since it does not fault.
    match r with
    | .ok () => exact .inl (by rw [run_of_ok hargs hrun])
    | .error (.refused e) => exact .inr (by rw [run_of_refused hargs hrun])
    | .error (.fault fault) => exact absurd rfl (hfault fault)

/-- A graph in which all handles are the greatest that can be written. -/
def strayText : String :=
  "\x7b\"nodes\":[\x7b\"name\":\"a\"\x7d]," ++
    "\"edges\":[\x7b\"tail\":18446744073709551615,\"head\":18446744073709551615\x7d]," ++
    "\"subgraphs\":[\x7b\"name\":\"L\",\"nodes\":[18446744073709551615]\x7d]\x7d"

/-- A folder with that graph as the rule and as the target. -/
def strayDesk : Workspace := desk strayText strayText

/-- The command line that asks for the last match that can be asked for. -/
def strayLine : List String :=
  rewriteLine "rule.json" "target.json" true (some 18446744073709551615) none

/-- A folder with the rule that replaces a node, and with a target in which it does so. -/
def replaceDesk : Workspace := desk (graphText Rule.replaceGraph) (graphText Rule.replaceTarget)

/-- The match of the rule there: both loops realise the loop of the rule. -/
def replaceFound : Mapping where
  nodes := [0, 1]
  edges := [[0, 2], [1]]

/-- The command line that asks for the first match. -/
def replaceLine : List String := rewriteLine "rule.json" "target.json" true none none

/-- The texts of the rule and of the target are read as what they were written for. -/
theorem inputsOf_replace :
    inputsOf (graphText Rule.replaceGraph) (graphText Rule.replaceTarget) =
      .ok (Rule.replaceRule.rule, Rule.replaceTarget) := by
  have hgraphOf : ∀ g : Graph, g.validate = .ok () → g.nodes.length ≤ Nat.pow 2 64 →
      g.edges.length ≤ Nat.pow 2 64 → graphOf (graphText g) = .ok g := by
    intro g hvalid hnodes hedges
    have hfits : g.Fits := (Graph.validate_eq_ok_iff.1 hvalid).fits hnodes fun _ => hedges
    exact graphOf_eq_ok.2 ⟨readText_graphText hfits, hvalid⟩
  have hrule : graphOf (graphText Rule.replaceGraph) = .ok Rule.replaceGraph :=
    hgraphOf Rule.replaceGraph (by decide) (by decide) (by decide)
  have htarget : graphOf (graphText Rule.replaceTarget) = .ok Rule.replaceTarget :=
    hgraphOf Rule.replaceTarget (by decide) (by decide) (by decide)
  have hderived : Rule.replaceGraph.toRule = .ok Rule.replaceRule := by decide +kernel
  exact inputsOf_eq_ok.2 ⟨ruleOf_eq_ok.2 ⟨_, _, hrule, hderived, rfl⟩, htarget, by decide⟩

/-- The run goes through all stages: the rule is derived, its match is found, and the target is
rewritten at the match. -/
theorem replaceLine_exit : (run replaceDesk replaceLine).exit = 0 := by
  obtain ⟨hrule, htarget⟩ :=
    desk_holds (graphText Rule.replaceGraph) (graphText Rule.replaceTarget)
  have hfound : (Query.of Rule.replaceRule.rule.lhs Rule.replaceTarget true >>= Query.findAll) =
      .ok [replaceFound] := by decide +kernel
  have hrewrites : (run replaceDesk replaceLine).RewritesAt .plain replaceDesk none
      Rule.replaceRule.rule Rule.replaceTarget [replaceFound] 0 :=
    rewriteLine_rewritesAt hrule htarget true (by decide) nofun inputsOf_replace hfound
  have hderived : Rule.replaceGraph.toRule = .ok Rule.replaceRule := by decide +kernel
  have hvalid : Rule.replaceTarget.Valid := Graph.validate_eq_ok_iff.1 (by decide)
  have hverify : Rule.replaceRule.rule.verify Rule.replaceTarget replaceFound = .ok () := by
    decide +kernel
  obtain ⟨result, happly⟩ :=
    (Rule.exists_apply_eq_ok_iff (Graph.toRule_wellFormed hderived) hvalid).2 hverify
  exact (hrewrites.rewritten replaceFound result rfl happly).1

/-- A run in which every handle and the number are out of range, and one that goes through to its
result. -/
theorem commands_never_fault_desks :
    ((∃ i, Invocation.ofArguments strayDesk strayLine = (strayDesk, .ok i)) ∧
      ((run strayDesk strayLine).exit = 0 ∨ (run strayDesk strayLine).exit = 1)) ∧
    (∃ i, Invocation.ofArguments replaceDesk replaceLine = (replaceDesk, .ok i) ∧
      i.checkedRun replaceDesk = i.run replaceDesk ∧ FaultFree (i.run replaceDesk).1) ∧
    ((run replaceDesk replaceLine).exit = 0 ∨ (run replaceDesk replaceLine).exit = 1) ∧
      (run replaceDesk replaceLine).exit = 0 := by
  have hargs : Invocation.ofArguments strayDesk strayLine = (strayDesk, .ok {
      task := .rewrite (.file "rule.json") (.file "target.json") 18446744073709551615 true }) :=
    ofArguments_rewriteLine (desk_holds _ _).1 (desk_holds _ _).2 true (by decide) nofun
  have hargs' : Invocation.ofArguments replaceDesk replaceLine = (replaceDesk, .ok {
      task := .rewrite (.file "rule.json") (.file "target.json") 0 true }) :=
    ofArguments_rewriteLine (desk_holds _ _).1 (desk_holds _ _).2 true (by decide) nofun
  exact ⟨⟨⟨_, hargs⟩, commands_never_fault.2 _ _ _ _ _ hargs⟩,
    ⟨_, hargs', commands_never_fault.1 _ _⟩,
    commands_never_fault.2 _ _ _ _ _ hargs', replaceLine_exit⟩

end Command

end DoublePushout
