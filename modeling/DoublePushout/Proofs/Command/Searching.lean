import DoublePushout.Proofs.Command.Actions
import DoublePushout.Proofs.Matching.Cursor
import DoublePushout.Proofs.Rule.Derivation

/-!
# `DoublePushout.Proofs.Command.Searching`: what the commands do with a search

To list the matches of a rule and to rewrite at one of them begins in the same way (`searching`).
The rule is read and derived and the target is read, as `inputsOf` does it with the two texts, and
the search begins (`searching_run`). `listFound_run`, `rewriteFound_run_beyond` and
`rewriteFound_run` say what is then made of the search, in terms of the list of all that it finds.

Each of these lemmas says what a part of a command leaves on the console: events, and what was
written. Until something is written there are only events that are `Unseen` at the usual level.
-/

set_option autoImplicit false

namespace DoublePushout.Command

open DoublePushout.Json (Value)

/-! ### Inputs -/

/-- The graph in a text, if there is one and it is valid. -/
def graphOf (text : String) : Except CommandError Graph := do
  let g ← (Graph.schema.readText text).mapError (CommandError.unreadable text)
  g.validate.mapError CommandError.graph
  return g

/-- The rule that the annotated graph in a text describes. -/
def ruleOf (text : String) : Except CommandError Rule := do
  let d ← (← graphOf text).toRule.mapError CommandError.rule
  return d.rule

/-- The rule and the target in two texts, if the rule can be sought. -/
def inputsOf (ruleText targetText : String) : Except CommandError (Rule × Graph) := do
  let rule ← ruleOf ruleText
  let target ← graphOf targetText
  if rule.lhs.nodes.isEmpty then .error .emptyPattern else .ok (rule, target)

section Inputs

variable {text ruleText targetText : String} {r : Rule} {g : Graph}

/-- A text gives a graph exactly if it is the JSON of one that is valid. -/
theorem graphOf_eq_ok :
    graphOf text = .ok g ↔ Graph.schema.readText text = .ok g ∧ g.validate = .ok () := by
  rw [graphOf, bind_eq_ok]
  constructor
  · rintro ⟨g', hread, hrest⟩
    obtain ⟨_, hvalid, hsame⟩ := bind_eq_ok.1 hrest
    obtain rfl := pure_eq_ok.1 hsame
    exact ⟨mapError_eq_ok.1 hread, mapError_eq_ok.1 hvalid⟩
  · rintro ⟨hread, hvalid⟩
    exact ⟨g, mapError_eq_ok.2 hread, bind_eq_ok.2 ⟨(), mapError_eq_ok.2 hvalid, rfl⟩⟩

/-- A text gives a rule exactly if it gives a graph from which the rule is derived. -/
theorem ruleOf_eq_ok :
    ruleOf text = .ok r ↔ ∃ g d, graphOf text = .ok g ∧ g.toRule = .ok d ∧ d.rule = r := by
  simp only [ruleOf, bind_eq_ok, mapError_eq_ok, pure_eq_ok]
  constructor
  · rintro ⟨g, hg, d, hd, hr⟩
    exact ⟨g, d, hg, hd, hr⟩
  · rintro ⟨g, d, hg, hd, hr⟩
    exact ⟨g, hg, d, hd, hr⟩

/-- Two texts give a rule and a target exactly if each does and the rule can be sought. -/
theorem inputsOf_eq_ok :
    inputsOf ruleText targetText = .ok (r, g) ↔
      ruleOf ruleText = .ok r ∧ graphOf targetText = .ok g ∧ r.lhs.nodes ≠ [] := by
  simp only [inputsOf, bind_eq_ok]
  constructor
  · rintro ⟨r', hr, g', hg, hpair⟩
    split at hpair
    · cases hpair
    · next hne =>
      cases hpair
      exact ⟨hr, hg, fun h => hne (List.isEmpty_iff.2 h)⟩
  · rintro ⟨hr, hg, hne⟩
    exact ⟨r, hr, g, hg, if_neg fun h => hne (List.isEmpty_iff.1 h)⟩

/-- A rule that a text gives was derived, so it is well-formed. -/
theorem ruleOf_wellFormed (h : ruleOf text = .ok r) : r.WellFormed := by
  obtain ⟨g, d, -, hd, rfl⟩ := ruleOf_eq_ok.1 h
  exact Graph.toRule_wellFormed hd

end Inputs

/-! ### Texts and events -/

/-- The text in which matches are listed. -/
def matchesText (ms : List Mapping) : String :=
  (Value.list (ms.map Mapping.schema.write)).pretty ++ "\n"

/-- The text in which a graph is written. -/
def graphText (g : Graph) : String := (Graph.schema.write g).pretty ++ "\n"

/-- The events are not shown unless more is asked for. -/
def Unseen (events : List Event) : Prop :=
  ∀ e ∈ events, Threshold.shows (some .info) e.level = false

/-- Unseen events stay unseen together. -/
theorem Unseen.append {events more : List Event} (h : Unseen events) (h' : Unseen more) :
    Unseen (events ++ more) := by
  rw [Unseen, List.forall_mem_append]
  exact ⟨h, h'⟩

/-- What is reported of a derivation is not seen at the usual level. -/
theorem unseen_ofDerivation (derived : Except RuleError DerivedRule) :
    Unseen (Event.ofDerivation derived) := by
  cases derived with
  | error e => simp [Unseen, Event.ofDerivation]
  | ok d =>
    rw [Unseen, Event.ofDerivation, List.forall_mem_singleton]
    rfl

/-- What is reported of matches is not seen at the usual level. -/
theorem unseen_ofMatches (ms : List Mapping) : Unseen (Event.ofMatches ms) := by
  intro e he
  obtain ⟨m, -, rfl⟩ := List.mem_map.1 he
  rfl

/-- What is reported of a rewrite is not seen at the usual level. -/
theorem unseen_ofApply (target : Graph) (applied : Except (Failure ApplyError) Graph) :
    Unseen (Event.ofApply target applied) := by
  cases applied with
  | error e => simp [Unseen, Event.ofApply]
  | ok g =>
    rw [Unseen, Event.ofApply, List.forall_mem_singleton]
    rfl

namespace Console

/-- The console with events added. -/
def report (c : Console) (events : List Event) : Console :=
  { c with events := c.events ++ events }

/-- Events that are reported one after the other are reported together. -/
theorem report_report (c : Console) (events more : List Event) :
    (c.report events).report more = c.report (events ++ more) := by
  rw [report, report, report, List.append_assoc]

/-- The console with a text written to an output. -/
def write (c : Console) (output : Output) (text : String) : Console :=
  match output with
  | .standard => { c with stdout := c.stdout ++ text }
  | .file path => { c with workspace := c.workspace.put path text }

end Console

namespace Action

variable {c : Console} {path text : String}

/-! ### Reading -/

/-- A graph is read from a file as `graphOf` reads it from the text, and leaves no trace. -/
theorem readGraph_file (h : c.workspace.find? path = some text) :
    (readGraph (.file path)).run.run c = (orRefuse (graphOf text), c) := by
  have hread : (read (.file path)).run.run c = (.ok text, c) := by
    show (Except.ok ((c.workspace.find? path).getD ""), c) = _
    rw [h]
    rfl
  rw [readGraph, run_bind_ok hread, graphOf]
  cases Graph.schema.readText text with
  | error e => rfl
  | ok g =>
    show _ = (orRefuse (g.validate.mapError CommandError.graph >>= fun _ => pure g), c)
    dsimp only
    cases g.validate with
    | error e => rfl
    | ok u => rfl

/-- A rule is read from a file as `ruleOf` reads it from the text, and leaves unseen events. -/
theorem readRule_file (h : c.workspace.find? path = some text) :
    ∃ events, Unseen events ∧
      (readRule (.file path)).run.run c = (orRefuse (ruleOf text), c.report events) := by
  have hgraph := readGraph_file h
  rw [readRule, ruleOf]
  cases hg : graphOf text with
  | error e =>
    rw [hg] at hgraph
    refine ⟨[], by simp [Unseen], ?_⟩
    rw [run_bind_error hgraph, Console.report, List.append_nil]
    rfl
  | ok g =>
    -- Reading the graph prints nothing, so all events are those of the derivation.
    rw [hg] at hgraph
    refine ⟨_, unseen_ofDerivation g.toRule, ?_⟩
    rw [run_bind_ok hgraph]
    show _ = (orRefuse (g.toRule.mapError CommandError.rule >>= fun d => pure d.rule), _)
    dsimp only
    cases g.toRule with
    | error e => rfl
    | ok d => rfl

/-- A search in a target begins, and what it has to find are the matches. -/
theorem search_run {pattern : Graph} (target : Graph) (injective : Bool)
    (hne : pattern.nodes ≠ [])
    (hends : ∀ e ∈ pattern.edges,
      e.tail < pattern.nodes.length ∧ e.head < pattern.nodes.length) :
    ∃ ms, (Query.of pattern target injective >>= Query.findAll) = .ok (Matches.toList ms) ∧
      ∀ c, (search pattern target injective).run.run c = (.ok ms, c) := by
  obtain ⟨all, hall, -⟩ := exists_findAll target injective hne hends
  obtain ⟨ms, hms, hlist⟩ := bind_eq_ok.1 hall
  have hq : Query.of pattern target injective = .ok _ := Query.of_eq_ok hne
  refine ⟨ms, by rw [hq]; exact hall.trans (by rw [← pure_eq_ok.1 hlist]), fun c => ?_⟩
  rw [search, if_neg (by simpa using hne), hq]
  show (guarded (Matches.start _)).run.run c = _
  rw [hms]
  rfl

/-- What listing the matches of a rule and rewriting at one of them have in common. -/
def searching (rule target : Input) (injective : Bool)
    (use : Rule → Graph → Matches → Action Unit) : Action Unit := do
  let rule ← readRule rule
  let target ← readGraph target
  use rule target (← search rule.lhs target injective)

variable {rule target ruleText targetText : String}

/-- The commands go through their inputs as `inputsOf` does. They stop at what it refuses, and
otherwise go on with a search for the rule in the target. -/
theorem searching_run (hrule : c.workspace.find? rule = some ruleText)
    (htarget : c.workspace.find? target = some targetText) (injective : Bool) :
    ∃ events, Unseen events ∧
      (∀ e, inputsOf ruleText targetText = .error e → ∀ use,
        (searching (.file rule) (.file target) injective use).run.run c =
          (.error (.refused e), c.report events)) ∧
      ∀ r g, inputsOf ruleText targetText = .ok (r, g) → ∃ ms,
        (Query.of r.lhs g injective >>= Query.findAll) = .ok (Matches.toList ms) ∧ ∀ use,
          (searching (.file rule) (.file target) injective use).run.run c =
            (use r g ms).run.run (c.report events) := by
  -- The cases follow `inputsOf`: where it stops the command stops, with the events so far.
  obtain ⟨events, hunseen, hreadRule⟩ := readRule_file hrule
  have hreadTarget : (readGraph (.file target)).run.run (c.report events) =
      (orRefuse (graphOf targetText), c.report events) := readGraph_file htarget
  refine ⟨events, hunseen, ?_⟩
  rw [inputsOf]
  cases hr : ruleOf ruleText with
  | error e =>
    rw [hr] at hreadRule
    refine ⟨fun e' he' use => ?_, fun r g hok => absurd hok (by simp [bind, Except.bind])⟩
    cases he'
    exact run_bind_error hreadRule
  | ok r =>
    rw [hr] at hreadRule
    cases hg : graphOf targetText with
    | error e =>
      rw [hg] at hreadTarget
      refine ⟨fun e' he' use => ?_, fun r g hok => absurd hok (by simp [bind, Except.bind])⟩
      cases he'
      exact (run_bind_ok hreadRule).trans (run_bind_error hreadTarget)
    | ok g =>
      rw [hg] at hreadTarget
      have hsearching : ∀ use, (searching (.file rule) (.file target) injective use).run.run c =
          (search r.lhs g injective >>= use r g).run.run (c.report events) :=
        fun use => (run_bind_ok hreadRule).trans (run_bind_ok hreadTarget)
      by_cases hempty : r.lhs.nodes.isEmpty = true
      · have hsearch : (search r.lhs g injective).run.run (c.report events) =
            (.error (.refused .emptyPattern), c.report events) := by
          rw [search, if_pos hempty]
          rfl
        refine ⟨fun e he use => ?_, fun r' g' hok => ?_⟩
        · cases (if_pos hempty).symm.trans he
          exact (hsearching use).trans (run_bind_error hsearch)
        · cases (if_pos hempty).symm.trans hok
      · have hne : r.lhs.nodes ≠ [] := fun h => hempty (List.isEmpty_iff.2 h)
        obtain ⟨ms, hall, hsearch⟩ :=
          search_run g injective hne (ruleOf_wellFormed hr).lhs_valid.ends_lt
        refine ⟨fun e he use => ?_, fun r' g' hok => ?_⟩
        · cases (if_neg hempty).symm.trans he
        · cases (if_neg hempty).symm.trans hok
          exact ⟨ms, hall, fun use => (hsearching use).trans (run_bind_ok (hsearch _))⟩

/-! ### What is found -/

variable {output : Output} {ms : Matches}

/-- To list the matches of a rule is to search and then to list what is found. -/
theorem perform_listRule (rule target : Input) (limit : Option Nat) (injective : Bool) :
    perform output (.listRule rule target limit injective) =
      searching rule target injective fun _ _ => listFound output limit := rfl

/-- To rewrite at a match of a rule is to search and then to rewrite at what is found. -/
theorem perform_rewrite (rule target : Input) (index : Nat) (injective : Bool) :
    perform output (.rewrite rule target index injective) =
      searching rule target injective fun rule target =>
        rewriteFound output rule target index := rfl

/-- Writing leaves the text and a line break at the output. -/
theorem write_run (v : Value) :
    (write output v).run.run c = (.ok (), c.write output (v.pretty ++ "\n")) := by
  cases output <;> rfl

/-- Listing succeeds, and writes the matches or as many of them as the limit lets through. -/
theorem listFound_run (limit : Option Nat) : ∃ events,
    (listFound output limit ms).run.run c = (.ok (), (c.report events).write output
      (matchesText (limit.elim ms.toList ms.toList.take))) := by
  -- The limit decides how the search is read, but what is read is given by its list.
  have hrun : ∀ found : List Mapping, (limit.elim ms.toList fun n => (ms.take n).1) = found →
      (listFound output limit ms).run.run c =
        (.ok (), ((c.report (Event.ofMatches found)).report [.matchesReported found.length]).write
          output (matchesText found)) := by
    rintro _ rfl
    cases limit with
    | none => exact write_run _
    | some n => exact write_run _
  have hfound : (limit.elim ms.toList fun n => (ms.take n).1) =
      limit.elim ms.toList ms.toList.take := by
    cases limit with
    | none => rfl
    | some n => exact (Matches.take_toList n ms).1
  exact ⟨_, by rw [hrun _ hfound, Console.report_report]⟩

variable {r : Rule} {g : Graph} {index : Nat}

/-- Where the number is too great, the error says how many matches there are. -/
theorem rewriteFound_run_beyond (h : ms.toList.length ≤ index) : ∃ events, Unseen events ∧
    (rewriteFound output r g index ms).run.run c =
      (.error (.refused (.noMatch index ms.toList.length)), c.report events) := by
  obtain ⟨hpassed, hchosen, -⟩ := Matches.nth_toList index ms
  rw [List.take_of_length_le h] at hpassed
  rw [List.getElem?_eq_none h] at hchosen
  refine ⟨_, unseen_ofMatches ((ms.nth index).1 ++ (ms.nth index).2.1.toList), ?_⟩
  unfold rewriteFound
  generalize ms.nth index = r at *
  obtain ⟨passed, chosen, rest⟩ := r
  dsimp only at hpassed hchosen ⊢
  subst hpassed hchosen
  rfl

/-- Otherwise the rule is applied at the match with the number. -/
theorem rewriteFound_run {m : Mapping} (h : ms.toList[index]? = some m) :
    ∃ events, Unseen events ∧
      (∀ e, r.apply g m = .error (.refused e) →
        (rewriteFound output r g index ms).run.run c =
          (.error (.refused (.apply e)), c.report events)) ∧
      ∀ result, r.apply g m = .ok result →
        (rewriteFound output r g index ms).run.run c =
          (.ok (), ((c.report events).report [.rewriteReported index result]).write output
            (graphText result)) := by
  -- The match at the index is the one that `nth` gives; the others are passed over.
  obtain ⟨-, hchosen, -⟩ := Matches.nth_toList index ms
  rw [h] at hchosen
  refine ⟨_, (unseen_ofMatches ((ms.nth index).1 ++ (ms.nth index).2.1.toList)).append
    (unseen_ofApply g (r.apply g m)), ?_⟩
  rw [← Console.report_report]
  unfold rewriteFound
  generalize ms.nth index = r at *
  obtain ⟨passed, chosen, rest⟩ := r
  dsimp only at hchosen ⊢
  subst hchosen
  dsimp only
  refine ⟨fun e he => ?_, fun result hresult => ?_⟩
  · rw [he]
    rfl
  · rw [hresult]
    exact write_run _

end Action

end DoublePushout.Command
