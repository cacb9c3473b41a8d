import DoublePushout.Proofs.Command.Files
import DoublePushout.Proofs.Command.Lines
import DoublePushout.Proofs.Command.Searching
import DoublePushout.Proofs.Format
import DoublePushout.Proofs.Rule.Safety

/-!
# `DoublePushout.Proofs.Command.Agreement`: the commands agree

The matches of a rule are listed by one command, and a graph is rewritten at the match with a
number by another. They go through the search in different ways: one collects matches up to a
limit, the other passes over as many as the number says and counts them on the way.

Both begin with `searching`, so what is refused there is refused by both with one error. From
there on `listFound_run` and `rewriteFound_run` say what each makes of the search in terms of the
list of all matches, and `failsWith_of_refused` and `written_of_ok` what is seen of it from
outside. Put together for the two command lines (`listLine_prints`, `rewriteLine_rewritesAt`) they
give `commands_agree`.
-/

set_option autoImplicit false

namespace DoublePushout.Command

open DoublePushout.Json (Wording)

/-! ### Reports -/

/-- The run was refused something. Its standard output is empty, and the error is all that is
shown. -/
structure Report.FailsWith (r : Report) (wording : Wording) (e : CommandError) : Prop where
  exit : r.exit = 1
  stdout : r.stdout = ""
  stderr : r.stderr = linesOf (e.message wording)

/-- What a run has written: to the standard output, or to a file. -/
def Report.written (r : Report) (ws : Workspace) : Option String → Option String
  | none => some r.stdout
  | some path => ws.textAfter r.files path

/-- The run rewrites at the match with the number: it fails where there is none, and otherwise
does what the rule does at the match. -/
structure Report.RewritesAt (r : Report) (wording : Wording) (ws : Workspace)
    (output : Option String) (rule : Rule) (target : Graph) (ms : List Mapping) (index : Nat) :
    Prop where
  /-- Without a match the error says how many there are. -/
  beyond : ms.length ≤ index → r.FailsWith wording (.noMatch index ms.length)
  /-- The result is written, and if 64-bit words can name its nodes it is read back. -/
  rewritten : ∀ m result, ms[index]? = some m → rule.apply target m = .ok result →
    r.exit = 0 ∧ ∃ text, r.written ws output = some text ∧ text = graphText result ∧
      (result.nodes.length ≤ Nat.pow 2 64 → Graph.schema.readText text = .ok result)
  /-- An error of the rule is the error of the run. -/
  refused : ∀ m e, ms[index]? = some m → rule.apply target m = .error (.refused e) →
    r.FailsWith wording (.apply e)
  /-- There is no other outcome. -/
  faultFree : ∀ m ∈ ms, FaultFree (rule.apply target m)

/-! ### What is seen of a run -/

section Runs

variable {ws start : Workspace} {args : List String} {wording : Wording} {i : Invocation}

/-- Opening an output leaves the inputs as they are. -/
theorem Workspace.Holds.opened {inputs : List String} {input text : String}
    (h : ws.Holds input text) (hinput : input ∈ inputs) {output : Option String}
    (houtput : ∀ path ∈ output, ws.Receives inputs path) :
    (ws.opened output).Holds input text := by
  cases output with
  | none => exact h
  | some path =>
    obtain ⟨-, hcreate, -, hfresh⟩ := houtput path rfl
    -- The output is another file than the input, so opening it leaves the input as it was.
    refine ⟨h.plain, Eq.trans ?_ h.found⟩
    exact find?_put (namesFile_of_canCreate hcreate) (hfresh input hinput)

/-- A command at the usual level that is refused something before it has printed
fails with that. -/
theorem failsWith_of_refused {e : CommandError} {events : List Event}
    (hargs : Invocation.ofArguments ws args = (start, .ok i)) (hlevel : i.threshold = some .info)
    (hunseen : Unseen events) (hrun : i.run start =
      (.error (.refused e), ({ workspace := start } : Console).report events)) :
    (run ws args wording).FailsWith wording e := by
  have hhidden : events.filter (i.threshold.shows ·.level) = [] := by
    rw [List.filter_eq_nil_iff, hlevel]
    intro event hevent
    rw [hunseen event hevent]
    exact Bool.false_ne_true
  rw [run_of_refused hargs hrun]
  refine ⟨rfl, rfl, ?_⟩
  show (([] ++ events).filter _).map Event.line ++ _ = _
  rw [List.nil_append, hhidden, hlevel]
  rfl

/-- A command that succeeds has written what it has put into its output. -/
theorem written_of_ok {inputs : List String} {output : Option String}
    (houtput : ∀ path ∈ output, ws.Receives inputs path) {events : List Event} {text : String}
    (hargs : Invocation.ofArguments ws args = (ws.opened output, .ok i))
    (hrun : i.run (ws.opened output) =
      (.ok (), (({ workspace := ws.opened output } : Console).report events).write
        ((output.map .file).getD .standard) text)) :
    (run ws args wording).exit = 0 ∧ (run ws args wording).written ws output = some text := by
  rw [run_of_ok hargs hrun]
  refine ⟨rfl, ?_⟩
  cases output with
  | none =>
    -- The standard output is empty when the command begins.
    show some ("" ++ text) = some text
    rw [String.empty_append]
  | some path =>
    -- The file is another one than the inputs, so what is in it is what was written.
    obtain ⟨-, hcreate, hkeeps, -⟩ := houtput path rfl
    exact Workspace.textAfter_put (Workspace.namesFile_of_canCreate hcreate) hkeeps _

end Runs

/-! ### The two command lines -/

/-- The text in which a graph is written is read back, if its handles are 64-bit words. -/
theorem readText_graphText {g : Graph} (h : g.Fits) :
    Graph.schema.readText (graphText g) = .ok g :=
  Json.Schema.readText_pretty g.read_write h.write

/-- The result of a rule is read back as long as 64-bit words can name its nodes. -/
theorem readText_of_apply {rule : Rule} {target result : Graph} {m : Mapping}
    (h : rule.apply target m = .ok result) (hsize : result.nodes.length ≤ Nat.pow 2 64) :
    Graph.schema.readText (graphText result) = .ok result := by
  -- A result has no subgraphs, so it does not matter how many edges it has.
  have hsubgraphs : result.subgraphs = [] := (Rule.ends_lt_of_apply h).1
  exact readText_graphText ((Rule.valid_of_apply h).fits hsize fun hne => absurd hsubgraphs hne)

section Lines

variable {ws : Workspace} {rule target ruleText targetText : String} {wording : Wording}
  {r : Rule} {g : Graph} {e : CommandError} {ms : List Mapping}

/-- Listing is refused what the texts are refused for. -/
theorem listLine_failsWith (hrule : ws.Holds rule ruleText) (htarget : ws.Holds target targetText)
    (injective : Bool) {limit : Option Nat} (hlimit : limit.getD 0 < Nat.pow 2 64)
    (h : inputsOf ruleText targetText = .error e) :
    (run ws (listLine rule target injective limit) wording).FailsWith wording e := by
  have hargs := ofArguments_listLine hrule htarget injective hlimit
  obtain ⟨events, hunseen, hrefused, -⟩ :=
    Action.searching_run (c := { workspace := ws }) hrule.found htarget.found injective
  have hrun := hrefused e h fun _ _ => Action.listFound .standard limit
  rw [← Action.perform_listRule] at hrun
  exact failsWith_of_refused hargs rfl hunseen hrun

/-- Listing prints the matches, as many of them as the limit lets through. -/
theorem listLine_prints (hrule : ws.Holds rule ruleText) (htarget : ws.Holds target targetText)
    (injective : Bool) {limit : Option Nat} (hlimit : limit.getD 0 < Nat.pow 2 64)
    (h : inputsOf ruleText targetText = .ok (r, g))
    (hms : (Query.of r.lhs g injective >>= Query.findAll) = .ok ms) :
    (run ws (listLine rule target injective limit) wording).exit = 0 ∧
      (run ws (listLine rule target injective limit) wording).stdout =
        matchesText (limit.elim ms ms.take) := by
  have hargs := ofArguments_listLine hrule htarget injective hlimit
  obtain ⟨events, -, -, hfound⟩ :=
    Action.searching_run (c := { workspace := ws }) hrule.found htarget.found injective
  obtain ⟨search, hall, hsearching⟩ := hfound r g h
  -- The list of all matches is the list that the search goes through.
  obtain rfl := Except.ok.inj (hms.symm.trans hall)
  obtain ⟨more, hlist⟩ := Action.listFound_run limit
  have hrun := (hsearching fun _ _ => Action.listFound .standard limit).trans hlist
  rw [← Action.perform_listRule] at hrun
  rw [run_of_ok hargs hrun]
  refine ⟨rfl, ?_⟩
  show "" ++ matchesText _ = matchesText _
  rw [String.empty_append]

section Rewriting

variable {index : Option Nat} {output : Option String}

/-- Rewriting is refused what the texts are refused for. -/
theorem rewriteLine_failsWith (hrule : ws.Holds rule ruleText)
    (htarget : ws.Holds target targetText) (injective : Bool)
    (hindex : index.getD 0 < Nat.pow 2 64)
    (houtput : ∀ path ∈ output, ws.Receives [rule, target] path)
    (h : inputsOf ruleText targetText = .error e) :
    (run ws (rewriteLine rule target injective index output) wording).FailsWith wording e := by
  have hargs := ofArguments_rewriteLine hrule htarget injective hindex houtput
  -- Opening the output has changed neither input.
  have hruleOpened := hrule.opened (by simp) houtput
  have htargetOpened := htarget.opened (by simp) houtput
  obtain ⟨events, hunseen, hrefused, -⟩ :=
    Action.searching_run (c := { workspace := ws.opened output }) hruleOpened.found
      htargetOpened.found injective
  have hrun := hrefused e h fun rule target =>
    Action.rewriteFound ((output.map .file).getD .standard) rule target (index.getD 0)
  rw [← Action.perform_rewrite] at hrun
  exact failsWith_of_refused hargs rfl hunseen hrun

/-- Rewriting does what the rule does at the match with the number. -/
theorem rewriteLine_rewritesAt (hrule : ws.Holds rule ruleText)
    (htarget : ws.Holds target targetText) (injective : Bool)
    (hindex : index.getD 0 < Nat.pow 2 64)
    (houtput : ∀ path ∈ output, ws.Receives [rule, target] path)
    (h : inputsOf ruleText targetText = .ok (r, g))
    (hms : (Query.of r.lhs g injective >>= Query.findAll) = .ok ms) :
    (run ws (rewriteLine rule target injective index output) wording).RewritesAt wording ws
      output r g ms (index.getD 0) := by
  have hargs := ofArguments_rewriteLine hrule htarget injective hindex houtput
  have hruleOpened := hrule.opened (by simp) houtput
  have htargetOpened := htarget.opened (by simp) houtput
  obtain ⟨events, hunseen, -, hfound⟩ :=
    Action.searching_run (c := { workspace := ws.opened output }) hruleOpened.found
      htargetOpened.found injective
  obtain ⟨search, hall, hsearching⟩ := hfound r g h
  obtain rfl := Except.ok.inj (hms.symm.trans hall)
  have hsearching := hsearching fun rule target =>
    Action.rewriteFound ((output.map .file).getD .standard) rule target (index.getD 0)
  rw [← Action.perform_rewrite] at hsearching
  obtain ⟨hr, hg, -⟩ := inputsOf_eq_ok.1 h
  have hvalid := Graph.validate_eq_ok_iff.1 (graphOf_eq_ok.1 hg).2
  -- Opening the output has left both inputs as they were, so the search is the one that listing
  -- makes.
  refine ⟨fun hbeyond => ?_, fun m result hm happly => ?_, fun m e hm happly => ?_,
    fun m _ => Rule.apply_faultFree (ruleOf_wellFormed hr) hvalid⟩
  · obtain ⟨more, hmore, hrun⟩ := Action.rewriteFound_run_beyond hbeyond
    refine failsWith_of_refused hargs rfl (hunseen.append hmore) ?_
    rw [← Console.report_report]
    exact hsearching.trans hrun
  · obtain ⟨more, -, -, hrun⟩ := Action.rewriteFound_run hm
    have hwrite := hsearching.trans (hrun result happly)
    rw [Console.report_report, Console.report_report] at hwrite
    obtain ⟨hexit, hwritten⟩ := written_of_ok houtput hargs hwrite
    exact ⟨hexit, _, hwritten, rfl, readText_of_apply happly⟩
  · obtain ⟨more, hmore, hrun, -⟩ := Action.rewriteFound_run hm
    refine failsWith_of_refused hargs rfl (hunseen.append hmore) ?_
    rw [← Console.report_report]
    exact hsearching.trans (hrun e happly)

end Rewriting

/-- The texts are those of an annotated graph that describes a rule, and of a valid target. -/
structure Supply (ruleText targetText : String) (d : DerivedRule) (g : Graph) : Prop where
  rule : ∃ a, Graph.schema.readText ruleText = .ok a ∧ a.validate = .ok () ∧ a.toRule = .ok d
  target : Graph.schema.readText targetText = .ok g
  valid : g.validate = .ok ()

/-- A rule and a target that are not refused have a list of matches. -/
theorem exists_matches (h : inputsOf ruleText targetText = .ok (r, g)) (injective : Bool) :
    ∃ ms, (Query.of r.lhs g injective >>= Query.findAll) = .ok ms := by
  obtain ⟨hr, -, hne⟩ := inputsOf_eq_ok.1 h
  obtain ⟨search, hall, -⟩ :=
    Action.search_run g injective hne (ruleOf_wellFormed hr).lhs_valid.ends_lt
  exact ⟨_, hall⟩

/-- Texts that are not refused are those of an annotated graph and of a target. -/
theorem exists_supply (h : inputsOf ruleText targetText = .ok (r, g)) :
    ∃ d, Supply ruleText targetText d g ∧ d.rule = r := by
  obtain ⟨hr, hg, -⟩ := inputsOf_eq_ok.1 h
  obtain ⟨a, d, ha, hd, heq⟩ := ruleOf_eq_ok.1 hr
  obtain ⟨hread, hvalid⟩ := graphOf_eq_ok.1 ha
  obtain ⟨htarget, htargetValid⟩ := graphOf_eq_ok.1 hg
  exact ⟨d, ⟨⟨a, hread, hvalid, hd⟩, htarget, htargetValid⟩, heq⟩

/-- The commands agree with each other and with the library, for every rule file and target file,
and however the reader words its errors. If listing the matches fails, then for what the two texts
are refused for, and rewriting fails with the same error, at whatever number and for whatever
output. Otherwise the list that is printed is that of all matches of the derived rule; a limit
cuts it; and rewriting at a number does what the rule does at the match of the list that has this
number. No run that fails prints anything to the standard output. -/
theorem commands_agree (wording : Wording) (hrule : ws.Holds rule ruleText)
    (htarget : ws.Holds target targetText) (injective : Bool) :
    ((run ws (listLine rule target injective none) wording).exit = 1 → ∃ e,
      inputsOf ruleText targetText = .error e ∧
      (run ws (listLine rule target injective none) wording).FailsWith wording e ∧
      ∀ (index : Option Nat) (output : Option String), index.getD 0 < Nat.pow 2 64 →
        (∀ path ∈ output, ws.Receives [rule, target] path) →
        (run ws (rewriteLine rule target injective index output) wording).FailsWith wording e) ∧
    ((run ws (listLine rule target injective none) wording).exit ≠ 1 → ∃ d g ms,
      Supply ruleText targetText d g ∧
      (Query.of d.rule.lhs g injective >>= Query.findAll) = .ok ms ∧
      (run ws (listLine rule target injective none) wording).exit = 0 ∧
      (run ws (listLine rule target injective none) wording).stdout = matchesText ms ∧
      (∀ limit < Nat.pow 2 64,
        (run ws (listLine rule target injective (some limit)) wording).exit = 0 ∧
        (run ws (listLine rule target injective (some limit)) wording).stdout =
          matchesText (ms.take limit)) ∧
      ∀ (index : Option Nat) (output : Option String), index.getD 0 < Nat.pow 2 64 →
        (∀ path ∈ output, ws.Receives [rule, target] path) →
        (run ws (rewriteLine rule target injective index output) wording).RewritesAt wording ws
          output d.rule g ms (index.getD 0)) ∧
    ∀ (ws : Workspace) (args : List String),
      (run ws args wording).exit = 1 → (run ws args wording).stdout = "" := by
  -- Whether the two texts are refused does not depend on the command, so it decides for both.
  have hsmall : (none : Option Nat).getD 0 < Nat.pow 2 64 := by decide
  refine ⟨fun hexit => ?_, fun hexit => ?_, fun ws args => stdout_of_exit_eq_one⟩
  · cases h : inputsOf ruleText targetText with
    | error e =>
      refine ⟨e, rfl, listLine_failsWith hrule htarget injective hsmall h, ?_⟩
      intro index output hindex houtput
      exact rewriteLine_failsWith hrule htarget injective hindex houtput h
    | ok inputs =>
      obtain ⟨ms, hms⟩ := exists_matches h injective
      have hzero : (run ws (listLine rule target injective none) wording).exit = 0 :=
        (listLine_prints hrule htarget injective hsmall h hms).1
      exact absurd (hzero.symm.trans hexit) Nat.zero_ne_one
  · cases h : inputsOf ruleText targetText with
    | error e => exact absurd (listLine_failsWith hrule htarget injective hsmall h).exit hexit
    | ok inputs =>
      obtain ⟨ms, hms⟩ := exists_matches h injective
      obtain ⟨d, hsupply, hd⟩ := exists_supply h
      obtain ⟨hzero, hlist⟩ := listLine_prints hrule htarget injective hsmall h hms
      rw [← hd] at hms
      refine ⟨d, inputs.2, ms, hsupply, hms, hzero, hlist, fun limit hlimit => ?_,
        fun index output hindex houtput => ?_⟩
      · exact listLine_prints hrule htarget injective hlimit h (hd ▸ hms)
      · rw [hd] at hms ⊢
        exact rewriteLine_rewritesAt hrule htarget injective hindex houtput h hms

/-- A folder with a rule and a target. -/
def desk (ruleText targetText : String) : Workspace where
  files := [("rule.json", ruleText), ("target.json", targetText)]

/-- Both files are there, with their texts. -/
theorem desk_holds (ruleText targetText : String) :
    (desk ruleText targetText).Holds "rule.json" ruleText ∧
    (desk ruleText targetText).Holds "target.json" targetText := by
  have hother : samePath "rule.json" "target.json" = false := by decide +kernel
  refine ⟨⟨by decide, ?_⟩, ⟨by decide, ?_⟩⟩
  · rw [Workspace.find?_file (by decide +kernel) (by decide +kernel)]
    simp [desk, samePath]
  · rw [Workspace.find?_file (by decide +kernel) (by decide +kernel)]
    simp [desk, hother, samePath_iff.2]

/-- A rule that keeps its only node. -/
def loneRuleText : String :=
  "\x7b\"nodes\":[\x7b\"name\":\"a\"\x7d],\"edges\":[],\"subgraphs\":[" ++
    "\x7b\"name\":\"L\",\"nodes\":[0]\x7d,\x7b\"name\":\"R\",\"nodes\":[0]\x7d]\x7d"

/-- Two nodes without a label. -/
def pairText : String :=
  "\x7b\"nodes\":[\x7b\"name\":\"x\"\x7d,\x7b\"name\":\"y\"\x7d],\"edges\":[]\x7d"

/-- The matches of the rule that keeps a node are listed without an error. -/
theorem loneDesk_lists :
    (run (desk loneRuleText pairText) (listLine "rule.json" "target.json" true none)
      wording).exit = 0 := by
  have hread : (inputsOf loneRuleText pairText).isOk = true := by decide +kernel
  obtain ⟨hrule, htarget⟩ := desk_holds loneRuleText pairText
  cases h : inputsOf loneRuleText pairText with
  | error e =>
    rw [h] at hread
    cases hread
  | ok inputs =>
    obtain ⟨ms, hms⟩ := exists_matches h true
    exact (listLine_prints hrule htarget true (by decide) h hms).1

/-- The reader's words for a brace with nothing after it, and for a bracket
that closes nothing. -/
def brokenWording : Wording := fun text e =>
  if text = "\x7b" then "EOF while parsing an object at line 1 column 1"
  else if text = "]" then "expected value at line 1 column 1"
  else e.message

/-- A brace is refused as a rule, together with the text that it was. -/
theorem inputsOf_broken : inputsOf "\x7b" pairText = .error (.unreadable "\x7b" .malformed) := by
  decide +kernel

/-- With the rule that keeps a node both commands do their work; with a brace for a rule both
fail, and print the reader's words. -/
theorem commands_agree_desks :
    ((desk loneRuleText pairText).Holds "rule.json" loneRuleText ∧
      (desk loneRuleText pairText).Holds "target.json" pairText ∧
      (run (desk loneRuleText pairText) (listLine "rule.json" "target.json" true none)
        brokenWording).exit ≠ 1 ∧
      (desk loneRuleText pairText).Receives ["rule.json", "target.json"] "out.json" ∧ ∃ d g ms,
        Supply loneRuleText pairText d g ∧
        (Query.of d.rule.lhs g true >>= Query.findAll) = .ok ms ∧
        (run (desk loneRuleText pairText) (listLine "rule.json" "target.json" true none)
          brokenWording).stdout = matchesText ms ∧
        (run (desk loneRuleText pairText) (listLine "rule.json" "target.json" true (some 1))
          brokenWording).stdout = matchesText (ms.take 1) ∧
        (run (desk loneRuleText pairText)
          (rewriteLine "rule.json" "target.json" true (some 1) (some "out.json"))
          brokenWording).RewritesAt brokenWording (desk loneRuleText pairText) (some "out.json")
            d.rule g ms 1) ∧
    (desk "\x7b" pairText).Holds "rule.json" "\x7b" ∧
      (desk "\x7b" pairText).Holds "target.json" pairText ∧
      (run (desk "\x7b" pairText) (listLine "rule.json" "target.json" true none)
        brokenWording).exit = 1 ∧
      (run (desk "\x7b" pairText) (rewriteLine "rule.json" "target.json" true (some 1) none)
        brokenWording).stderr =
        linesOf "Error parsing input: EOF while parsing an object at line 1 column 1" := by
  constructor
  · obtain ⟨hrule, htarget⟩ := desk_holds loneRuleText pairText
    have hout : (desk loneRuleText pairText).Receives ["rule.json", "target.json"] "out.json" :=
      ⟨by decide, by decide +kernel, by decide +kernel, by decide +kernel⟩
    have hexit : (run (desk loneRuleText pairText) (listLine "rule.json" "target.json" true none)
        brokenWording).exit ≠ 1 := by
      rw [loneDesk_lists]
      decide
    obtain ⟨d, g, ms, hsupply, hms, -, hlist, hlimit, hrewrite⟩ :=
      (commands_agree brokenWording hrule htarget true).2.1 hexit
    have hrewrites := hrewrite (some 1) (some "out.json") (by decide) fun path hpath =>
      Option.some.inj hpath ▸ hout
    exact ⟨hrule, htarget, hexit, hout, d, g, ms, hsupply, hms, hlist,
      (hlimit 1 (by decide)).2, hrewrites⟩
  · obtain ⟨hrule, htarget⟩ := desk_holds "\x7b" pairText
    have hexit : (run (desk "\x7b" pairText) (listLine "rule.json" "target.json" true none)
        brokenWording).exit = 1 :=
      (listLine_failsWith hrule htarget true (by decide) inputsOf_broken).exit
    obtain ⟨e, he, -, hrewrite⟩ := (commands_agree brokenWording hrule htarget true).1 hexit
    cases inputsOf_broken.symm.trans he
    exact ⟨hrule, htarget, hexit, (hrewrite (some 1) none (by decide) nofun).stderr⟩

end Lines

end DoublePushout.Command
