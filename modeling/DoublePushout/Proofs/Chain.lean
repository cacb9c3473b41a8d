import DoublePushout.Proofs.Matching.Cursor
import DoublePushout.Proofs.Rule.Count
import DoublePushout.Proofs.Rule.Refusal
import DoublePushout.Proofs.Rule.Safety
import Mathlib.Algebra.Ring.Int.Defs

/-!
# `DoublePushout.Proofs.Chain`: chains of rewrites keep the accounts

A chain of rewrites feeds the result of one rewrite to the next search. What the search finds has
to be fit for the rewrite, and what the rewrite gives has to be fit for the next search.

* `Rule.refusal_cases`: at a mapping that embeds the left side, a rule is refused for three
  reasons only. A mapping that a search has found always embeds it.
* `Choice.Explains` says for each kind of outcome when a choice may come to it, and what is then
  known. `Choice.attempt_explains` is the step lemma: a choice of a well-formed rule in a valid
  graph comes to one of these outcomes.
* `valid_of_mem_graphsReached` carries it along a chain by induction: the graph after a step is
  valid again. `nodes_length_reached` adds up the nodes.

`rewriteChain_accounts` is the statement about chains of derived rules.
-/

set_option autoImplicit false

namespace DoublePushout

/-! ### Why a match is refused -/

namespace Rule

variable {r : Rule} {target : Graph} {m : Mapping}

/-- A rule is refused at an embedding because two nodes have one image, or because of an edge that
would be both deleted and kept, or of one that would lose an end. -/
theorem refusal_cases (hr : r.WellFormed) (hm : m.Embeds r.lhs target) {e : ApplyError}
    (h : r.verify target m = .error (.refused e)) :
    (¬ m.Injective ∧ ∃ n, e = .nonInjective n) ∨ (∃ j, e = .edgeConflict j) ∨
      ∃ j n, e = .danglingEdge j n := by
  have hobstacle := (verify_eq_refused_iff hr).1 h
  cases e with
  | invalidMatch defect => cases (Mapping.validate_eq_ok_iff.2 hm).symm.trans hobstacle
  | nonInjective n =>
    have hrepeat := firstRepeat?_nodes_eq_some.2 hobstacle.2
    refine .inl ⟨fun hinj => ?_, n, rfl⟩
    cases (firstRepeat?_nodes_eq_none.2 hinj).symm.trans hrepeat
  | edgeConflict j => exact .inr (.inl ⟨j, rfl⟩)
  | danglingEdge j n => exact .inr (.inr ⟨j, n, rfl⟩)

/-- What a well-formed rule makes of a valid target is a valid graph that balances. -/
theorem balances_of_apply (hr : r.WellFormed) (ht : target.Valid) {result : Graph}
    (h : r.apply target m = .ok result) : result.Valid ∧ r.Balances target m result := by
  have hverify := (exists_apply_eq_ok_iff hr ht).1 ⟨result, h⟩
  have hredex : r.Redex target m := ⟨hr, ht, (verify_eq_ok_iff hr).1 hverify⟩
  obtain ⟨result', happly, hgives⟩ := hredex.apply_gives
  obtain rfl : result = result' := Except.ok.inj (h.symm.trans happly)
  exact ⟨hgives.valid, hredex.balances hgives⟩

end Rule

/-! ### One step -/

namespace Choice

variable {c : Choice} {g : Graph}

/-- The matches that a choice picks from. -/
def candidates (c : Choice) (g : Graph) : Except Fault (List Mapping) := do
  let q ← c.options.query c.rule.lhs g
  q.findAll

/-- The choice picks the match: it is the one with the chosen number. -/
def Picks (c : Choice) (g : Graph) (m : Mapping) : Prop :=
  ∃ all, c.candidates g = .ok all ∧ all[c.index]? = some m

/-- What an outcome of a choice tells. A fault comes from a rule without a left side only. There
is no match when there are too few. A match is refused for one of three reasons, the first of
which an injective search excludes. A rewrite gives a valid graph that balances. -/
def Explains (c : Choice) (g : Graph) : Outcome → Prop
  | .fault x => c.rule.lhs.nodes = [] ∧ x = .emptyPattern
  | .noMatch found => ∃ all, c.candidates g = .ok all ∧ all.length = found ∧ found ≤ c.index
  | .refused m e => c.Picks g m ∧ c.rule.apply g m = .error (.refused e) ∧
      ((c.options.injective = false ∧ ∃ n, e = .nonInjective n) ∨ (∃ j, e = .edgeConflict j) ∨
        ∃ j n, e = .danglingEdge j n)
  | .rewritten m result => c.Picks g m ∧ c.rule.apply g m = .ok result ∧
      result.validate = .ok () ∧ c.rule.Balances g m result

/-- The search of the choice reads no table outside it. -/
def ReadsInside (c : Choice) (g : Graph) : Prop :=
  ∀ q, c.options.query c.rule.lhs g = .ok q → q.ReadsInside

/-- The match with a number is taken from the list of all candidates, and those before it are
passed. -/
theorem pick_eq (c : Choice) (g : Graph) :
    c.pick g = (c.candidates g).map fun all => (all.take c.index, all[c.index]?) := by
  rw [pick, candidates]
  cases c.options.query c.rule.lhs g with
  | error x => rfl
  | ok q =>
    show (Matches.start q >>= fun search => _) = Except.map _ (Query.findAll q)
    rw [Query.findAll]
    cases Matches.start q with
    | error x => rfl
    | ok search =>
      obtain ⟨hpassed, hmatch, -⟩ := Matches.nth_toList c.index search
      show Except.ok ((search.nth c.index).1, (search.nth c.index).2.1) = _
      rw [hpassed, hmatch]
      rfl

/-- Without a left side there is nothing to search for. -/
theorem attempt_of_nil (h : c.rule.lhs.nodes = []) : c.attempt g = .fault .emptyPattern := by
  have hquery : c.options.query c.rule.lhs g = .error .emptyPattern := by
    rw [SearchOptions.query, Query.of, h]
    rfl
  rw [attempt, pick, hquery]
  rfl

/-- A search for the left side of a well-formed rule stays inside its tables, and finds embeddings
only. -/
theorem candidates_spec (hr : c.rule.WellFormed) (hne : c.rule.lhs.nodes ≠ []) :
    c.ReadsInside g ∧ ∃ all, c.candidates g = .ok all ∧
      ∀ m ∈ all, m.Embeds c.rule.lhs g ∧ (c.options.injective = true → m.Injective) := by
  obtain ⟨q, hq, hpattern, htarget, hinjective, hstop⟩ := c.options.query_spec g hne
  have hne' : q.pattern.nodes ≠ [] := hpattern ▸ hne
  have hclosed : q.Closed := by
    rw [Query.Closed, hpattern]
    exact hr.lhs_valid.ends_lt
  obtain ⟨all, hall⟩ : ∃ all, q.findAll = .ok all := ⟨_, Query.findAll_eq hclosed⟩
  refine ⟨fun q' hq' => ?_, all, ?_, fun m hm => ?_⟩
  · -- What is read is inside the graphs by the search's own invariant, which needs nothing of the
    -- target.
    cases hq.symm.trans hq'
    exact Query.readsInside hne' hclosed hstop
  · rw [candidates, hq]
    exact hall
  · obtain ⟨-, hembeds, -, hinj⟩ := (Query.mem_findAll hne' hclosed hall).1 hm
    rw [hpattern, htarget] at hembeds
    rw [hinjective] at hinj
    exact ⟨hembeds, hinj⟩

/-- The step lemma: what a choice of a well-formed rule comes to in a valid graph. -/
theorem attempt_explains (hr : c.rule.WellFormed) (hg : g.Valid) :
    c.ReadsInside g ∧ c.Explains g (c.attempt g) := by
  by_cases hne : c.rule.lhs.nodes = []
  · refine ⟨fun q hq => ?_, ?_⟩
    · rw [SearchOptions.query, Query.of, hne] at hq
      cases hq
    · rw [attempt_of_nil hne]
      exact ⟨hne, rfl⟩
  · obtain ⟨hreads, all, hall, hembeds⟩ := candidates_spec (g := g) hr hne
    refine ⟨hreads, ?_⟩
    have hpick : c.pick g = .ok (all.take c.index, all[c.index]?) := by
      rw [pick_eq, hall]
      rfl
    rw [attempt, hpick]
    cases hm : all[c.index]? with
    | none =>
      -- The search has passed over all matches before it gave up.
      have hle : all.length ≤ c.index := List.getElem?_eq_none_iff.1 hm
      show c.Explains g (.noMatch (all.take c.index).length)
      rw [List.take_of_length_le hle]
      exact ⟨all, hall, rfl, hle⟩
    | some m =>
      obtain ⟨hembeds, hinj⟩ := hembeds m (List.mem_of_getElem? hm)
      show c.Explains g (.ofApply m (c.rule.apply g m))
      cases happly : c.rule.apply g m with
      | ok result =>
        obtain ⟨hvalid, hbalances⟩ := Rule.balances_of_apply hr hg happly
        exact ⟨⟨all, hall, hm⟩, happly, Graph.validate_eq_ok_iff.2 hvalid, hbalances⟩
      | error e =>
        cases e with
        | fault x => exact absurd happly (Rule.apply_faultFree hr hg x)
        | refused e =>
          refine ⟨⟨all, hall, hm⟩, happly, ?_⟩
          -- A rewrite at an accepted match is not refused, so the check of the match has done it.
          have hverify : c.rule.verify g m = .error (.refused e) := by
            rcases bind_eq_error.1 happly with hverify | ⟨_, -, hbuild⟩
            · exact hverify
            · exact absurd hbuild orFault_ne_refused
          rcases Rule.refusal_cases hr hembeds hverify with ⟨hnot, hn⟩ | hrest
          · refine .inl ⟨?_, hn⟩
            cases hflag : c.options.injective with
            | true => exact absurd (hinj hflag) hnot
            | false => rfl
          · exact .inr hrest

/-- The nodes that a step adds, less those that it deletes: none unless it rewrites. -/
def nodeGrowth (c : Choice) : Outcome → Int
  | .rewritten _ _ => c.rule.nodeGrowth
  | _ => 0

/-- A step keeps the graph valid, and changes the number of its nodes by what the step adds. -/
theorem Explains.after {outcome : Outcome} (h : c.Explains g outcome) (hg : g.Valid) :
    (outcome.after g).Valid ∧
      ((outcome.after g).nodes.length : Int) = g.nodes.length + c.nodeGrowth outcome := by
  cases outcome with
  | rewritten m result =>
    obtain ⟨-, -, hvalid, hbalances⟩ := h
    exact ⟨Graph.validate_eq_ok_iff.1 hvalid, hbalances.nodes⟩
  | noMatch found => exact ⟨hg, (Int.add_zero _).symm⟩
  | refused m e => exact ⟨hg, (Int.add_zero _).symm⟩
  | fault x => exact ⟨hg, (Int.add_zero _).symm⟩

end Choice

/-! ### Whole chains -/

/-- The graphs that a chain comes by: the first one, and that after each step. -/
def graphsReached (g : Graph) (choices : List Choice) : List Graph :=
  g :: (rewriteChain g choices).map (·.2)

/-- A chain has one outcome for each choice. -/
theorem length_rewriteChain (g : Graph) (choices : List Choice) :
    (rewriteChain g choices).length = choices.length := by
  induction choices generalizing g with
  | nil => rfl
  | cons c choices ih => exact congrArg (· + 1) (ih _)

/-- Behind the first choice a chain goes on from the graph that this choice has left. -/
theorem graphsReached_cons (g : Graph) (c : Choice) (choices : List Choice) :
    graphsReached g (c :: choices) =
      g :: graphsReached ((c.attempt g).after g) choices := rfl

variable {g : Graph} {choices : List Choice}

/-- A chain of well-formed rules reaches valid graphs only. -/
theorem valid_of_mem_graphsReached (hrules : ∀ c ∈ choices, c.rule.WellFormed) (hg : g.Valid) :
    ∀ g' ∈ graphsReached g choices, g'.Valid := by
  induction choices generalizing g with
  | nil =>
    intro g' hg'
    rw [List.mem_singleton.1 hg']
    exact hg
  | cons c choices ih =>
    intro g' hg'
    obtain ⟨hc, hrest⟩ := List.forall_mem_cons.1 hrules
    rw [graphsReached_cons] at hg'
    rcases List.mem_cons.1 hg' with rfl | hg'
    · exact hg
    · exact ih hrest ((Choice.attempt_explains hc hg).2.after hg).1 g' hg'

/-- The outcome of a step is that of its choice in the graph reached before it. -/
theorem getElem?_rewriteChain {i : Nat} {c : Choice} {before : Graph}
    (hc : choices[i]? = some c) (hbefore : (graphsReached g choices)[i]? = some before) :
    (rewriteChain g choices)[i]? = some (c.attempt before, (c.attempt before).after before) := by
  induction choices generalizing g i with
  | nil => cases hc
  | cons c' choices ih =>
    cases i with
    | zero =>
      obtain rfl := Option.some.inj hc
      obtain rfl := Option.some.inj hbefore
      rfl
    | succ i => exact ih hc hbefore

/-- The nodes of a graph that a chain reaches are those of the first graph and what the steps so
far have added. -/
theorem nodes_length_reached (hrules : ∀ c ∈ choices, c.rule.WellFormed) (hg : g.Valid) {i : Nat}
    {g' : Graph} (hg' : (graphsReached g choices)[i]? = some g') :
    (g'.nodes.length : Int) = g.nodes.length +
      (((choices.zip (rewriteChain g choices)).take i).map fun s =>
        s.1.nodeGrowth s.2.1).sum := by
  induction choices generalizing g i with
  | nil =>
    cases i with
    | zero =>
      obtain rfl := Option.some.inj hg'
      simp
    | succ i => cases hg'
  | cons c choices ih =>
    -- The first attempt moves to the graph that the other attempts start from.
    cases i with
    | zero =>
      obtain rfl := Option.some.inj hg'
      simp
    | succ i =>
      obtain ⟨hc, hrest⟩ := List.forall_mem_cons.1 hrules
      obtain ⟨hafter, hlen⟩ := (Choice.attempt_explains hc hg).2.after hg
      rw [ih hrest hafter hg', hlen]
      show _ = (g.nodes.length : Int) + (c.nodeGrowth (c.attempt g) + _)
      exact Int.add_assoc _ _ _

/-- Let rules be derived and a target be valid, and let any choices be made one after the other.
Then every graph reached is valid. Each choice is attempted in the graph reached before it, and
what it comes to is explained: it faults only for a rule without a left side, it is refused only
for one of three reasons, and when it rewrites, nodes and edges change as the rule says. Every
other outcome leaves the graph as it was. In any graph reached there are as many nodes as in the
target, with those that the rewrites so far have added and without those that they have deleted.
-/
theorem rewriteChain_accounts {target : Graph} {choices : List Choice}
    (hrules : ∀ c ∈ choices, ∃ g d, Graph.toRule g = .ok d ∧ c.rule = d.rule)
    (ht : target.validate = .ok ()) :
    (graphsReached target choices).length = choices.length + 1 ∧
    (∀ g ∈ graphsReached target choices, g.validate = .ok ()) ∧
    (∀ (i : Nat) (c : Choice) (before : Graph), choices[i]? = some c →
      (graphsReached target choices)[i]? = some before →
      ∃ outcome : Outcome,
        (rewriteChain target choices)[i]? = some (outcome, outcome.after before) ∧
        c.ReadsInside before ∧ c.Explains before outcome) ∧
    ∀ (i : Nat) (g : Graph), (graphsReached target choices)[i]? = some g →
      (g.nodes.length : Int) = target.nodes.length +
        (((choices.zip (rewriteChain target choices)).take i).map
          fun s => s.1.nodeGrowth s.2.1).sum := by
  have hvalid := Graph.validate_eq_ok_iff.1 ht
  have hformed : ∀ c ∈ choices, c.rule.WellFormed := by
    -- Every rule on the list was derived, and derived rules are well formed.
    intro c hc
    obtain ⟨g, d, hd, heq⟩ := hrules c hc
    rw [heq]
    exact Graph.toRule_wellFormed hd
  have hreached := valid_of_mem_graphsReached hformed hvalid
  refine ⟨?_, fun g hg => Graph.validate_eq_ok_iff.2 (hreached g hg), ?_,
    fun i g => nodes_length_reached hformed hvalid⟩
  · rw [graphsReached, List.length_cons, List.length_map, length_rewriteChain]
  · intro i c before hc hbefore
    refine ⟨c.attempt before, getElem?_rewriteChain hc hbefore, ?_⟩
    exact Choice.attempt_explains (hformed c (List.mem_of_getElem? hc))
      (hreached before (List.mem_of_getElem? hbefore))

/-- A rule that creates a node out of nothing, in writing. -/
def sproutGraph : Graph where
  nodes := [{ name := "new" }]
  subgraphs := [{ name := "L" }, { name := "R", nodes := IdSet.ofList [0] }]

/-- The rule that is written there. -/
def sproutRule : DerivedRule where
  rule := { rhs := { nodes := [{ name := "new" }] } }
  lhsOrigin := {}
  rhsOrigin := { nodes := [0] }

/-- Choices with all four kinds of outcome: two nodes with one image, a rewrite, a rule without a
left side, and a search with too few matches. -/
def mixedChoices : List Choice :=
  [{ rule := Rule.replaceRule.rule }, { rule := Rule.replaceRule.rule, index := 1 },
    { rule := sproutRule.rule },
    { rule := Rule.replaceRule.rule, index := 4,
      options := { injective := true, roots := some (1, 9) } }]

/-- A chain of choices in which a rewrite, a refusal, a number too great and a pattern without
nodes all occur. -/
theorem rewriteChain_accounts_mixed :
    (∀ c ∈ mixedChoices, ∃ g d, Graph.toRule g = .ok d ∧ c.rule = d.rule) ∧
    Rule.replaceTarget.validate = .ok () ∧
    (graphsReached Rule.replaceTarget mixedChoices).length = mixedChoices.length + 1 ∧
    (∀ g ∈ graphsReached Rule.replaceTarget mixedChoices, g.validate = .ok ()) ∧
    (∀ (i : Nat) (c : Choice) (before : Graph), mixedChoices[i]? = some c →
      (graphsReached Rule.replaceTarget mixedChoices)[i]? = some before →
      ∃ outcome : Outcome,
        (rewriteChain Rule.replaceTarget mixedChoices)[i]? =
          some (outcome, outcome.after before) ∧
        c.ReadsInside before ∧ c.Explains before outcome) ∧
    ∀ (i : Nat) (g : Graph), (graphsReached Rule.replaceTarget mixedChoices)[i]? = some g →
      (g.nodes.length : Int) = Rule.replaceTarget.nodes.length +
        (((mixedChoices.zip (rewriteChain Rule.replaceTarget mixedChoices)).take i).map
          fun s => s.1.nodeGrowth s.2.1).sum :=
  have hreplace : Rule.replaceGraph.toRule = .ok Rule.replaceRule := by decide +kernel
  have hsprout : sproutGraph.toRule = .ok sproutRule := by decide +kernel
  have hrules : ∀ c ∈ mixedChoices, ∃ g d, Graph.toRule g = .ok d ∧ c.rule = d.rule := by
    intro c hc
    simp only [mixedChoices, List.mem_cons, List.not_mem_nil, or_false] at hc
    rcases hc with rfl | rfl | rfl | rfl
    · exact ⟨_, _, hreplace, rfl⟩
    · exact ⟨_, _, hreplace, rfl⟩
    · exact ⟨_, _, hsprout, rfl⟩
    · exact ⟨_, _, hreplace, rfl⟩
  have ht : Rule.replaceTarget.validate = .ok () := by decide
  ⟨hrules, ht, rewriteChain_accounts hrules ht⟩

example : (rewriteChain Rule.replaceTarget mixedChoices).map (·.1) =
    [.refused ⟨[0, 0], [[0, 2], [0, 2]]⟩ (.nonInjective 0),
      .rewritten ⟨[0, 1], [[0, 2], [1]]⟩ {
        nodes := [{ name := "z", label := some "" }, { name := "x" },
          { name := "new", label := some "n" }]
        edges := [{ tail := 0, head := 1 }, { tail := 1, head := 1 }, { tail := 1, head := 1 },
          { tail := 1, head := 2 }] },
      .fault .emptyPattern, .noMatch 1] := by cbv

end DoublePushout
