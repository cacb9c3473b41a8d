import DoublePushout.Command.Invocation

/-!
# `DoublePushout.Proofs.Command.Lines`: command lines and what they mean

A command line is cut into arguments, and the arguments are taken one after the other. Both steps
go from left to right, so both are described here by what they do with the words of one flag and
leave to the words after it: `split_switch`, `split_option` and `split_word` for the cutting,
`takeAll_cons` for the taking.

`listLine` and `rewriteLine` are the command lines that list the matches of a rule in a target and
that rewrite the target at one of them. `ofArguments_listLine` and `ofArguments_rewriteLine` say
what they mean: every flag reaches its own setting, and a number is read as it was written.
-/

set_option autoImplicit false

namespace DoublePushout.Command

/-- The word does not begin like a flag. -/
def IsPlain (word : String) : Prop := word.toList.head? ≠ some '-'

instance (word : String) : Decidable (IsPlain word) :=
  inferInstanceAs (Decidable (word.toList.head? ≠ some '-'))

/-! ### Numbers -/

/-- The decimal digits of a 64-bit number are read as this number. -/
theorem readNumber?_toString {n : Nat} (h : n < Nat.pow 2 64) :
    readNumber? (toString n) = some n := by
  have hdigits : ∀ c ∈ Nat.toDigits 10 n, c.isDigit = true :=
    fun c hc => Nat.isDigit_of_mem_toDigits (by decide) (by decide) hc
  -- The digits that are read are those that the number is written with.
  have hvalue : (Nat.toDigits 10 n).foldl (fun n c => 10 * n + (c.toNat - '0'.toNat)) 0 = n := by
    rw [← Nat.ofDigitChars_eq_foldl]
    exact Nat.ofDigitChars_toDigits (by decide) (by decide)
  rw [readNumber?, Nat.toString_eq_repr, Nat.toList_repr]
  split
  · -- A plus sign is no digit.
    next ds hplus =>
      have hmem : '+' ∈ Nat.toDigits 10 n := hplus ▸ List.mem_cons_self ..
      exact absurd (hdigits '+' hmem) (by decide)
  · have hread : ¬ (Nat.toDigits 10 n = [] ∨ (!(Nat.toDigits 10 n).all Char.isDigit) = true) := by
      simpa [Nat.toDigits_ne_nil] using hdigits
    rw [if_neg hread, hvalue]
    exact if_pos h

/-- No decimal number begins like a flag. -/
theorem isPlain_toString (n : Nat) : IsPlain (toString n) := by
  rw [IsPlain, Nat.toString_eq_repr, Nat.toList_repr]
  intro hdash
  have hdigit := Nat.isDigit_of_mem_toDigits (by decide) (by decide) (List.mem_of_head? hdash)
  exact absurd hdigit (by decide)

/-! ### Cutting -/

namespace Argument

variable {v : Verb} {f : Flag} {word option : String} {rest : List String}

/-- A plain word is the value of the flag that waits for one, and otherwise an operand. -/
theorem split_word (h : IsPlain word) (waiting : Option Flag) :
    split v waiting (word :: rest) =
      (waiting.elim (.operand word) fun f => .flag f (some word)) :: split v none rest := by
  rw [IsPlain] at h
  -- The first three cases are those of a word with a dash in front.
  rw [split.eq_def]
  dsimp only
  split
  · next hword => exact absurd (by rw [hword]; rfl) h
  · next hword => exact absurd (by rw [hword]; rfl) h
  · next hword => exact absurd (by rw [hword]; rfl) h
  · cases waiting with
    | none => rfl
    | some f => rfl

/-- A flag of a command is found under its name. -/
theorem ofLong_name (hf : f ∈ v.flags) :
    ofLong v f.name.toList = if f.hasValue then .awaiting [] f else .complete [.flag f none] := by
  revert hf
  cases v <;> cases f <;> decide

/-- A word with the long name of a flag is this flag. -/
theorem split_long (hoption : option.toList = '-' :: '-' :: f.name.toList) (hf : f ∈ v.flags) :
    split v none (option :: rest) =
      if f.hasValue then split v (some f) rest else .flag f none :: split v none rest := by
  have hname : f.name.toList ≠ [] := by
    cases f <;> decide
  rw [split.eq_def]
  dsimp only
  split
  · -- Two dashes alone are the end of the flags, but no flag has an empty name.
    next hword =>
    rw [hoption, List.cons.injEq, List.cons.injEq] at hword
    exact absurd hword.2.2 hname
  · next long _ hword =>
    rw [hoption, List.cons.injEq, List.cons.injEq] at hword
    rw [← hword.2.2, ofLong_name hf]
    split <;> rw [split.splitAfter] <;> rfl
  · -- Letters follow a single dash.
    next hlong hword =>
    rw [hoption, List.cons.injEq, List.cons.injEq] at hword
    exact absurd hword.2.1.symm hlong
  · next hlong _ => exact absurd hoption (hlong _)

/-- A flag without a value is one argument. -/
theorem split_switch (hoption : option.toList = '-' :: '-' :: f.name.toList) (hf : f ∈ v.flags)
    (hvalue : f.hasValue = false) :
    split v none (option :: rest) = .flag f none :: split v none rest := by
  rw [split_long hoption hf, hvalue]
  rfl

/-- A flag with a value is one argument together with the word behind it. -/
theorem split_option (hoption : option.toList = '-' :: '-' :: f.name.toList) (hf : f ∈ v.flags)
    (hvalue : f.hasValue = true) (hword : IsPlain word) :
    split v none (option :: word :: rest) = .flag f (some word) :: split v none rest := by
  rw [split_long hoption hf, hvalue, if_pos rfl, split_word hword]
  rfl

/-- Every command has the flag `-o`. -/
theorem split_output (hword : IsPlain word) :
    split v none ("-o" :: word :: rest) = .flag .output (some word) :: split v none rest := by
  have hletter : ofLetters v ['o'] [] = .awaiting [] .output := by
    cases v <;> rfl
  rw [split.eq_def]
  show unfinished none ++ split.splitAfter v (ofLetters v ['o'] []) (word :: rest) = _
  rw [hletter, split.splitAfter, split_word hword]
  rfl

end Argument

/-! ### Taking -/

/-- The words turn what is set so far into what is set then, whatever words follow. -/
def Sets (v : Verb) (words : List String) (before after : Workspace × Settings) : Prop :=
  ∀ rest, Settings.takeAll before.1 before.2 (Argument.split v none (words ++ rest)) =
    Settings.takeAll after.1 after.2 (Argument.split v none rest)

section Sets

variable {v : Verb} {ws : Workspace} {s : Settings} {path : String}

/-- No words set nothing. -/
theorem Sets.nil {before : Workspace × Settings} : Sets v [] before before := fun _ => rfl

/-- Words that follow each other set what they set one after the other. -/
theorem Sets.append {first second : List String} {before middle after : Workspace × Settings}
    (h : Sets v first before middle) (h' : Sets v second middle after) :
    Sets v (first ++ second) before after := by
  intro rest
  rw [List.append_assoc, h, h']

/-- Words that follow each other to the end of the line leave what they set. -/
theorem Sets.takeAll_eq {words : List String} {before after : Workspace × Settings}
    (h : Sets v words before after) :
    Settings.takeAll before.1 before.2 (Argument.split v none words) =
      (after.1, .ok after.2) := by
  have hend := h []
  rw [List.append_nil] at hend
  rw [hend, Argument.split]
  rfl

/-- An argument that is taken leaves the others to be taken. -/
theorem takeAll_cons {a : Argument} {as : List Argument} {after : Workspace × Settings}
    (h : s.take ws a = .ok after) :
    Settings.takeAll ws s (a :: as) = Settings.takeAll after.1 after.2 as := by
  rw [Settings.takeAll, h]

/-- A file that is there is opened for reading. -/
theorem openInput_file (hplain : IsPlain path) (hfound : (ws.find? path).isSome) :
    openInput ws path = .ok (.file path) := by
  have hdash : path ≠ "-" := by
    rintro rfl
    exact hplain rfl
  rw [openInput, if_neg hdash, if_pos hfound]

/-- A file that can be created is created, or emptied. -/
theorem openOutput_file (hplain : IsPlain path) (hcreate : ws.canCreate path) :
    openOutput ws path = .ok (ws.put path "", .file path) := by
  have hdash : path ≠ "-" := by
    rintro rfl
    exact hplain rfl
  rw [openOutput, if_neg hdash, if_pos hcreate]

/-- A flag with a value sets what the flag and the value set. -/
theorem Sets.option {option word : String} {f : Flag} {after : Workspace × Settings}
    (hoption : option.toList = '-' :: '-' :: f.name.toList) (hflag : f ∈ v.flags)
    (hvalue : f.hasValue = true) (hword : IsPlain word)
    (h : s.take ws (.flag f (some word)) = .ok after) : Sets v [option, word] (ws, s) after := by
  intro rest
  show Settings.takeAll ws s (Argument.split v none (option :: word :: rest)) = _
  rw [Argument.split_option hoption hflag hvalue hword]
  exact takeAll_cons h

/-- The words for a flag without a value, if it is wanted. -/
def switchWords (option : String) (wanted : Bool) : List String := if wanted then [option] else []

/-- The words for a flag with a value, if there is one. -/
def optionWords (option : String) : Option String → List String
  | none => []
  | some word => [option, word]

/-- The flag for the rule sets the rule. -/
theorem sets_rule (hflag : .rule ∈ v.flags) (hplain : IsPlain path)
    (hfound : (ws.find? path).isSome) (hnew : s.rule = none) :
    Sets v ["--rule", path] (ws, s) (ws, { s with rule := some (.file path) }) := by
  refine Sets.option rfl hflag rfl hplain ?_
  rw [Settings.take, once, hnew, openInput_file hplain hfound]
  rfl

/-- A plain word sets the graph that the command works on. -/
theorem sets_operand (hplain : IsPlain path) (hfound : (ws.find? path).isSome)
    (hnew : s.operand = none) :
    Sets v [path] (ws, s) (ws, { s with operand := some (.file path) }) := by
  intro rest
  show Settings.takeAll ws s (Argument.split v none (path :: rest)) = _
  rw [Argument.split_word hplain]
  refine takeAll_cons ?_
  rw [Option.elim_none, Settings.take, once, hnew, openInput_file hplain hfound]
  rfl

/-- The flag for injective matches sets that they are wanted, and its absence that they are
not. -/
theorem sets_injective (hflag : .injective ∈ v.flags) (injective : Bool)
    (hnew : s.injective = false) :
    Sets v (switchWords "--injective" injective) (ws, s) (ws, { s with injective }) := by
  cases injective with
  | false =>
    cases s
    cases hnew
    exact Sets.nil
  | true =>
    intro rest
    show Settings.takeAll ws s (Argument.split v none ("--injective" :: rest)) = _
    rw [Argument.split_switch rfl hflag rfl]
    refine takeAll_cons ?_
    rw [Settings.take, hnew]
    rfl

/-- A flag with a number, and the setting that it is for. -/
structure NumberFlag where
  /-- The flag. -/
  flag : Flag
  /-- The word for it. -/
  word : String
  /-- What is set so far. -/
  get : Settings → Option Nat
  /-- The settings with another number. -/
  set : Settings → Option Nat → Settings
  /-- The word is the long name of the flag. -/
  word_eq : word.toList = '-' :: '-' :: flag.name.toList
  /-- The flag is given a value. -/
  hasValue : flag.hasValue = true
  /-- Setting what is set changes nothing. -/
  set_get : ∀ s, set s (get s) = s
  /-- The value is taken once, as a number. -/
  take_eq : ∀ (ws : Workspace) (s : Settings) (word : String),
    s.take ws (.flag flag (some word)) = (do
      once (get s)
      return (ws, set s (some (← number word))))

/-- The flag for how many matches are listed at most. -/
def limitFlag : NumberFlag where
  flag := .limit
  word := "--limit"
  get := Settings.limit
  set s limit := { s with limit }
  word_eq := rfl
  hasValue := rfl
  set_get _ := rfl
  take_eq _ _ _ := rfl

/-- The flag for the number of the match to rewrite. -/
def indexFlag : NumberFlag where
  flag := .index
  word := "--index"
  get := Settings.index
  set s index := { s with index }
  word_eq := rfl
  hasValue := rfl
  set_get _ := rfl
  take_eq _ _ _ := rfl

/-- A number reaches the setting that its flag is for. -/
theorem NumberFlag.sets (f : NumberFlag) (hflag : f.flag ∈ v.flags) (n : Option Nat)
    (hsmall : n.getD 0 < Nat.pow 2 64) (hnew : f.get s = none) :
    Sets v (optionWords f.word (n.map toString)) (ws, s) (ws, f.set s n) := by
  cases n with
  | none =>
    have hsame : f.set s none = s := hnew ▸ f.set_get s
    rw [hsame]
    exact Sets.nil
  | some k =>
    have hread : readNumber? (toString k) = some k := readNumber?_toString hsmall
    refine Sets.option f.word_eq hflag f.hasValue (isPlain_toString k) ?_
    rw [f.take_eq, hnew, number, hread]
    rfl

/-- The workspace after an output is opened, if there is one. -/
def Workspace.opened (ws : Workspace) : Option String → Workspace
  | none => ws
  | some path => ws.put path ""

/-- The flag for the output sets the output, and opens it. -/
theorem sets_output (output : Option String)
    (hopen : ∀ path ∈ output, IsPlain path ∧ ws.canCreate path) (hnew : s.output = none) :
    Sets v (optionWords "-o" output) (ws, s)
      (ws.opened output, { s with output := output.map .file }) := by
  cases output with
  | none =>
    cases s
    cases hnew
    exact Sets.nil
  | some path =>
    obtain ⟨hplain, hcreate⟩ := hopen path rfl
    intro rest
    show Settings.takeAll ws s (Argument.split v none ("-o" :: path :: rest)) = _
    rw [Argument.split_output hplain]
    refine takeAll_cons ?_
    rw [Settings.take, once, hnew, openOutput_file hplain hcreate]
    rfl

end Sets

/-! ### The lines -/

/-- The path names an input: a file with a text, and no flag. -/
structure Workspace.Holds (ws : Workspace) (path text : String) : Prop where
  plain : IsPlain path
  found : ws.find? path = some text

/-- The path names an output: a file that can be created or emptied and keeps what it is given,
none of the inputs, and no flag. -/
structure Workspace.Receives (ws : Workspace) (inputs : List String) (path : String) : Prop where
  plain : IsPlain path
  creatable : ws.canCreate path = true
  keeps : pathParts path ≠ nullDevice
  fresh : ∀ input ∈ inputs, pathParts path ≠ pathParts input

/-- The command line that lists the matches of a rule in a target. -/
def listLine (rule target : String) (injective : Bool) (limit : Option Nat) : List String :=
  ["match", "--rule", rule, target] ++ switchWords "--injective" injective ++
    optionWords "--limit" (limit.map toString)

/-- The command line that rewrites a target at a match of a rule. -/
def rewriteLine (rule target : String) (injective : Bool) (index : Option Nat)
    (output : Option String) : List String :=
  ["apply", "--rule", rule, target] ++ switchWords "--injective" injective ++
    optionWords "--index" (index.map toString) ++ optionWords "-o" output

section Lines

variable {ws : Workspace} {rule target ruleText targetText : String}

/-- A command line means what its words set. -/
theorem ofArguments_of_sets {v : Verb} {name : String} {words : List String}
    {after : Workspace × Settings} (hname : Verb.ofName? name = some v)
    (h : Sets v words (ws, {}) after) :
    Invocation.ofArguments ws (name :: words) = (after.1, after.2.invocation v) := by
  rw [Invocation.ofArguments, hname]
  dsimp only
  rw [h.takeAll_eq]
  rfl

/-- The two inputs of a command that has a rule. -/
theorem sets_inputs {v : Verb} (hflag : .rule ∈ v.flags) (hrule : ws.Holds rule ruleText)
    (htarget : ws.Holds target targetText) :
    Sets v ["--rule", rule, target] (ws, {})
      (ws, { rule := some (.file rule), operand := some (.file target) }) :=
  (sets_rule hflag hrule.plain (Option.isSome_of_eq_some hrule.found) rfl).append
    (sets_operand htarget.plain (Option.isSome_of_eq_some htarget.found) rfl)

/-- The line for listing asks for the matches of the rule in the target, up to the limit. -/
theorem ofArguments_listLine (hrule : ws.Holds rule ruleText)
    (htarget : ws.Holds target targetText) (injective : Bool) {limit : Option Nat}
    (hlimit : limit.getD 0 < Nat.pow 2 64) :
    Invocation.ofArguments ws (listLine rule target injective limit) =
      (ws, .ok { task := .listRule (.file rule) (.file target) limit injective }) := by
  have hsets := ((sets_inputs (v := .list) (by decide) hrule htarget).append
    (sets_injective (by decide) injective rfl)).append
      (limitFlag.sets (by decide) limit hlimit rfl)
  exact ofArguments_of_sets rfl hsets

/-- The line for rewriting asks for the match with the number, and has opened its output. -/
theorem ofArguments_rewriteLine (hrule : ws.Holds rule ruleText)
    (htarget : ws.Holds target targetText) (injective : Bool) {index : Option Nat}
    (hindex : index.getD 0 < Nat.pow 2 64) {output : Option String}
    (houtput : ∀ path ∈ output, ws.Receives [rule, target] path) :
    Invocation.ofArguments ws (rewriteLine rule target injective index output) =
      (ws.opened output, .ok {
        task := .rewrite (.file rule) (.file target) (index.getD 0) injective
        output := (output.map .file).getD .standard }) := by
  have hsets := ((sets_inputs (v := .rewrite) (by decide) hrule htarget).append
    (sets_injective (by decide) injective rfl)).append
      (indexFlag.sets (by decide) index hindex rfl)
  have hopen : ∀ path ∈ output, IsPlain path ∧ ws.canCreate path :=
    fun path hpath => ⟨(houtput path hpath).plain, (houtput path hpath).creatable⟩
  exact ofArguments_of_sets rfl (hsets.append (sets_output output hopen rfl))

end Lines

end DoublePushout.Command
