import DoublePushout.Format
import DoublePushout.Graph.Validity
import DoublePushout.Proofs.Json.RoundTrip
import DoublePushout.Proofs.Positions

/-!
# `DoublePushout.Proofs.Format`: the JSON form loses nothing

Each structure is read back from what is written for it. The proof goes along the schemas: for
each one `Schema.read_write` leaves the fields to go through, and each field is read back because
the structures in it are. A label that is left out stays absent, an empty one is written and kept,
and a set is written as its ascending list and is the set of that list.

Nothing is asked of a graph, a mapping or a rule except that its handles are 64-bit words
(`Fits`): they need not name anything. `json_roundtrip` is about the compact text and about the
pretty text with a line break behind it, which is what is written to files.
-/

set_option autoImplicit false

namespace DoublePushout

open Json (Value Parsed Field Schema)

/-! ### Handles that are 64-bit words -/

/-- The ends of the edge are 64-bit words. -/
structure Edge.Fits (e : Edge) : Prop where
  tail : e.tail < Nat.pow 2 64
  head : e.head < Nat.pow 2 64

/-- The members of the part are 64-bit words. -/
structure Subgraph.Fits (s : Subgraph) : Prop where
  nodes : ∀ n ∈ s.nodes.toList, n < Nat.pow 2 64
  edges : ∀ e ∈ s.edges.toList, e < Nat.pow 2 64

/-- The handles inside the graph are 64-bit words. -/
structure Graph.Fits (g : Graph) : Prop where
  edges : ∀ e ∈ g.edges, e.Fits
  subgraphs : ∀ s ∈ g.subgraphs, s.Fits

/-- The handles inside the mapping are 64-bit words. -/
structure Mapping.Fits (m : Mapping) : Prop where
  nodes : ∀ n ∈ m.nodes, n < Nat.pow 2 64
  edges : ∀ es ∈ m.edges, ∀ e ∈ es, e < Nat.pow 2 64

/-- The handles inside the rule are 64-bit words. -/
structure Rule.Fits (r : Rule) : Prop where
  lhs : r.lhs.Fits
  rhs : r.rhs.Fits
  interface : r.interface.Fits
  toLhs : r.toLhs.Fits
  toRhs : r.toRhs.Fits

/-- The handles in a valid graph are 64-bit words as long as those of its nodes are, and those of
its edges where it has subgraphs. -/
theorem Graph.Valid.fits {g : Graph} (h : g.Valid) (hnodes : g.nodes.length ≤ Nat.pow 2 64)
    (hedges : g.subgraphs ≠ [] → g.edges.length ≤ Nat.pow 2 64) : g.Fits where
  edges e he := by
    obtain ⟨htail, hhead⟩ := h.ends_lt e he
    exact ⟨Nat.lt_of_lt_of_le htail hnodes, Nat.lt_of_lt_of_le hhead hnodes⟩
  subgraphs s hs := by
    refine ⟨fun n hn => ?_, fun e he => ?_⟩
    · exact Nat.lt_of_lt_of_le (h.members_lt s hs n hn) hnodes
    · exact Nat.lt_of_lt_of_le (h.memberEdges_lt s hs e he) (hedges (List.ne_nil_of_mem hs))

/-! ### Sets -/

/-- A set is the set of the list of its members. -/
theorem IdSet.ofList_toList (s : IdSet) : IdSet.ofList s.toList = s :=
  IdSet.ext (eq_of_ascending (IdSet.ofList _).ascending s.ascending fun _ => IdSet.mem_ofList)

/-! ### Values -/

namespace Json

/-- The values of a list fit exactly if each of them does. -/
theorem Value.allFit_iff {vs : List Value} : Value.AllFit vs ↔ ∀ v ∈ vs, v.Fits := by
  induction vs with
  | nil => simp [Value.AllFit]
  | cons v vs ih => rw [Value.AllFit, ih, List.forall_mem_cons]

/-- The fields of a record fit exactly if the value of each does. -/
theorem Value.fieldsFit_iff {fs : List (String × Value)} :
    Value.FieldsFit fs ↔ ∀ f ∈ fs, f.2.Fits := by
  induction fs with
  | nil => simp [Value.FieldsFit]
  | cons f fs ih =>
    obtain ⟨key, v⟩ := f
    rw [Value.FieldsFit, ih, List.forall_mem_cons]

/-- A written list fits exactly if each of its written members does. -/
theorem Value.fits_list {α : Type} {write : α → Value} {xs : List α} :
    (Value.list (xs.map write)).Fits ↔ ∀ x ∈ xs, (write x).Fits := by
  rw [Value.Fits, Value.allFit_iff, List.forall_mem_map]

/-- A written structure fits when each of its fields does. -/
theorem Schema.fits_write {α : Type} {s : Schema α} {a : α}
    (h : ∀ f ∈ s.fields, ∀ v, f.write a = some v → v.Fits) : (s.write a).Fits := by
  rw [Schema.write, Value.Fits, Value.fieldsFit_iff]
  intro x hx
  obtain ⟨f, hf, hwrite⟩ := List.mem_filterMap.1 hx
  obtain ⟨v, hv, rfl⟩ := Option.map_eq_some_iff.1 hwrite
  exact h f hf v hv

/-- A list is read back when each of its items is. -/
theorem Parsed.asList_parsed {α : Type} {write : α → Value} {read : Parsed → Except ReadError α}
    (xs : List α) (h : ∀ x ∈ xs, read (write x).parsed = .ok x) :
    (Value.list (xs.map write)).parsed.asList read = .ok xs := by
  have hitems : (xs.map fun x => (write x).parsed).mapM read = .ok xs := by
    rw [mapM_eq_ok, List.forall₂_map_left_iff, List.forall₂_same]
    exact h
  rw [Value.parsed, Value.parsedItems_eq, List.map_map]
  show ((xs.map fun x => (write x).parsed).mapM read >>= _) = _
  rw [hitems]
  rfl

end Json

open Json

/-- Written handles are read back. -/
theorem asHandles_writeHandles (ns : List Nat) :
    (writeHandles ns).parsed.asList Parsed.asHandle = .ok ns :=
  Parsed.asList_parsed ns fun _ _ => rfl

/-- Handles that are 64-bit words are written as such. -/
theorem fits_writeHandles {ns : List Nat} (h : ∀ n ∈ ns, n < Nat.pow 2 64) :
    (writeHandles ns).Fits := by
  rw [writeHandles, Value.fits_list]
  intro n hn
  rw [Value.Fits]
  exact h n hn

/-- A label is written as a text, and fits. -/
theorem fits_of_writeLabel {label : Option String} {v : Value} (h : writeLabel label = some v) :
    v.Fits := by
  obtain ⟨text, -, rfl⟩ := Option.map_eq_some_iff.1 h
  trivial

/-! ### Nodes, edges and subgraphs -/

/-- A node is read back from what is written for it. -/
theorem Node.read_write (n : Node) : Node.schema.read (Node.schema.write n).parsed = .ok n := by
  refine Schema.read_write (by decide) (by simp [Node.schema]) ?_
  obtain ⟨name, label⟩ := n
  cases label with
  | none => rfl
  | some text => rfl

/-- There is no number in what is written for a node. -/
theorem Node.fits_write (n : Node) : (Node.schema.write n).Fits := by
  refine Schema.fits_write ?_
  simp only [Node.schema, List.forall_mem_cons, List.not_mem_nil, false_imp_iff, implies_true,
    and_true]
  refine ⟨?_, fun v => fits_of_writeLabel⟩
  rintro v ⟨⟩
  trivial

/-- An edge is read back from what is written for it. -/
theorem Edge.read_write (e : Edge) : Edge.schema.read (Edge.schema.write e).parsed = .ok e := by
  refine Schema.read_write (by decide) (by simp [Edge.schema]) ?_
  obtain ⟨tail, head, label⟩ := e
  cases label with
  | none => rfl
  | some text => rfl

/-- The ends of an edge are written as 64-bit words if they are such. -/
theorem Edge.Fits.write {e : Edge} (h : e.Fits) : (Edge.schema.write e).Fits := by
  refine Schema.fits_write ?_
  simp only [Edge.schema, List.forall_mem_cons, List.not_mem_nil, false_imp_iff, implies_true,
    and_true]
  refine ⟨?_, ?_, fun v => fits_of_writeLabel⟩
  · rintro v ⟨⟩
    exact h.tail
  · rintro v ⟨⟩
    exact h.head

/-- A subgraph is read back from what is written for it. -/
theorem Subgraph.read_write (s : Subgraph) :
    Subgraph.schema.read (Subgraph.schema.write s).parsed = .ok s := by
  refine Schema.read_write (by decide) (by simp [Subgraph.schema]) ?_
  have hnodes := asHandles_writeHandles s.nodes.toList
  have hedges := asHandles_writeHandles s.edges.toList
  simp [Subgraph.schema, Schema.reread, Value.parsed, Parsed.asText, hnodes, hedges,
    IdSet.ofList_toList]

/-- The members of a subgraph are written as 64-bit words if they are such. -/
theorem Subgraph.Fits.write {s : Subgraph} (h : s.Fits) : (Subgraph.schema.write s).Fits := by
  refine Schema.fits_write ?_
  simp only [Subgraph.schema, List.forall_mem_cons, List.not_mem_nil, false_imp_iff, implies_true,
    and_true]
  refine ⟨?_, ?_, ?_⟩
  · rintro v ⟨⟩
    trivial
  · rintro v ⟨⟩
    exact fits_writeHandles h.nodes
  · rintro v ⟨⟩
    exact fits_writeHandles h.edges

/-! ### Graphs -/

/-- A graph is read back from what is written for it. -/
theorem Graph.read_write (g : Graph) :
    Graph.schema.read (Graph.schema.write g).parsed = .ok g := by
  refine Schema.read_write (by decide) (by simp [Graph.schema]) ?_
  have hnodes := Parsed.asList_parsed g.nodes fun n _ => n.read_write
  have hedges := Parsed.asList_parsed g.edges fun e _ => e.read_write
  have hsubgraphs := Parsed.asList_parsed g.subgraphs fun s _ => s.read_write
  -- An empty list of subgraphs is left out, and the blank graph has it.
  by_cases hempty : g.subgraphs = []
  · obtain ⟨nodes, edges, subgraphs⟩ := g
    subst hempty
    simp [Graph.schema, Schema.reread, hnodes, hedges]
  · simp [Graph.schema, Schema.reread, hnodes, hedges, hsubgraphs, hempty]

/-- The handles in a graph are written as 64-bit words if they are such. -/
theorem Graph.Fits.write {g : Graph} (h : g.Fits) : (Graph.schema.write g).Fits := by
  refine Schema.fits_write ?_
  simp only [Graph.schema, List.forall_mem_cons, List.not_mem_nil, false_imp_iff, implies_true,
    and_true]
  refine ⟨?_, ?_, ?_⟩
  · rintro v ⟨⟩
    exact Value.fits_list.2 fun n _ => n.fits_write
  · rintro v ⟨⟩
    exact Value.fits_list.2 fun e he => (h.edges e he).write
  · intro v hv
    split at hv
    · cases hv
    · cases hv
      exact Value.fits_list.2 fun s hs => (h.subgraphs s hs).write

/-! ### Mappings and rules -/

/-- A mapping is read back from what is written for it. -/
theorem Mapping.read_write (m : Mapping) :
    Mapping.schema.read (Mapping.schema.write m).parsed = .ok m := by
  refine Schema.read_write (by decide) (by simp [Mapping.schema]) ?_
  have hnodes := asHandles_writeHandles m.nodes
  have hedges := Parsed.asList_parsed m.edges fun es _ => asHandles_writeHandles es
  simp [Mapping.schema, Schema.reread, hnodes, hedges]

/-- The handles in a mapping are written as 64-bit words if they are such. -/
theorem Mapping.Fits.write {m : Mapping} (h : m.Fits) : (Mapping.schema.write m).Fits := by
  refine Schema.fits_write ?_
  simp only [Mapping.schema, List.forall_mem_cons, List.not_mem_nil, false_imp_iff, implies_true,
    and_true]
  refine ⟨?_, ?_⟩
  · rintro v ⟨⟩
    exact fits_writeHandles h.nodes
  · rintro v ⟨⟩
    exact Value.fits_list.2 fun es hes => fits_writeHandles (h.edges es hes)

/-- A rule is read back from what is written for it. -/
theorem Rule.read_write (r : Rule) : Rule.schema.read (Rule.schema.write r).parsed = .ok r := by
  refine Schema.read_write (by decide) (by simp [Rule.schema]) ?_
  simp [Rule.schema, Schema.reread, Graph.read_write, Mapping.read_write]

/-- The handles in a rule are written as 64-bit words if they are such. -/
theorem Rule.Fits.write {r : Rule} (h : r.Fits) : (Rule.schema.write r).Fits := by
  refine Schema.fits_write ?_
  simp only [Rule.schema, List.forall_mem_cons, List.not_mem_nil, false_imp_iff, implies_true,
    and_true]
  refine ⟨?_, ?_, ?_, ?_, ?_⟩
  · rintro v ⟨⟩
    exact h.lhs.write
  · rintro v ⟨⟩
    exact h.rhs.write
  · rintro v ⟨⟩
    exact h.interface.write
  · rintro v ⟨⟩
    exact h.toLhs.write
  · rintro v ⟨⟩
    exact h.toRhs.write

/-! ### Texts -/

namespace Json.Schema

variable {α : Type} {s : Schema α} {a : α}

/-- The text of a structure in some layout, perhaps with blanks behind it, is read back. -/
theorem readText_render {lay : Layout} (hlay : lay.Blank)
    (hread : s.read (s.write a).parsed = .ok a) (hfits : (s.write a).Fits) (blanks : List Char)
    (hblanks : ∀ c ∈ blanks, Token.isBlank c = true) :
    s.readText (String.ofList ((s.write a).render lay 0 ++ blanks)) = .ok a := by
  rw [readText, Value.ofText_render hlay hfits hblanks]
  show (s.read (s.write a).parsed >>= _) = _
  rw [hread]
  rfl

/-- What is written compactly is read back. -/
theorem readText_compact (hread : s.read (s.write a).parsed = .ok a) (hfits : (s.write a).Fits) :
    s.readText (s.write a).compact = .ok a := by
  have htext := readText_render Layout.compact_blank hread hfits [] (by simp)
  rwa [List.append_nil] at htext

/-- What is written to a file is read back. -/
theorem readText_pretty (hread : s.read (s.write a).parsed = .ok a) (hfits : (s.write a).Fits) :
    s.readText ((s.write a).pretty ++ "\n") = .ok a := by
  have htext := readText_render Layout.pretty_blank hread hfits ['\n'] (by simp [Token.isBlank])
  rwa [String.ofList_append] at htext

end Json.Schema

/-- The JSON form loses nothing. Every graph, every mapping and every rule whose handles are
64-bit words is read back from its compact text, and from its pretty text with a line break behind
it, as it was: with its stored labels, its subgraphs and the members of its sets, whether or not
its handles name anything. -/
theorem json_roundtrip :
    (∀ g : Graph, g.Fits → Graph.schema.readText (Graph.schema.write g).compact = .ok g ∧
      Graph.schema.readText ((Graph.schema.write g).pretty ++ "\n") = .ok g) ∧
    (∀ m : Mapping, m.Fits → Mapping.schema.readText (Mapping.schema.write m).compact = .ok m ∧
      Mapping.schema.readText ((Mapping.schema.write m).pretty ++ "\n") = .ok m) ∧
    ∀ r : Rule, r.Fits → Rule.schema.readText (Rule.schema.write r).compact = .ok r ∧
      Rule.schema.readText ((Rule.schema.write r).pretty ++ "\n") = .ok r :=
  ⟨fun g h => ⟨Schema.readText_compact g.read_write h.write,
      Schema.readText_pretty g.read_write h.write⟩,
    fun m h => ⟨Schema.readText_compact m.read_write h.write,
      Schema.readText_pretty m.read_write h.write⟩,
    fun r h => ⟨Schema.readText_compact r.read_write h.write,
      Schema.readText_pretty r.read_write h.write⟩⟩

/-- A graph that is not valid, with texts that have to be escaped and the greatest handle. -/
def wildGraph : Graph where
  nodes := [{ name := "a\"b\\c\n\x01é", label := some "" }, { name := "" }]
  edges := [{ tail := 0, head := 18446744073709551615, label := some "\t" }]
  subgraphs := [{ name := "L", nodes := IdSet.ofList [7, 1] }, { name := "L" }]

/-- The greatest handle is still a 64-bit word. -/
theorem wildGraph_fits : wildGraph.Fits where
  edges := by
    intro e he
    rw [List.mem_singleton.1 he]
    exact ⟨by decide, by decide⟩
  subgraphs := by
    have hall : ∀ s ∈ wildGraph.subgraphs, (∀ n ∈ s.nodes.toList, n < Nat.pow 2 64) ∧
        ∀ e ∈ s.edges.toList, e < Nat.pow 2 64 := by decide
    exact fun s hs => ⟨(hall s hs).1, (hall s hs).2⟩

/-- A mapping out of range, with an edge that nothing realises. -/
def wildMapping : Mapping where
  nodes := [18446744073709551615]
  edges := [[], [3, 3]]

/-- So it is in the mapping. -/
theorem wildMapping_fits : wildMapping.Fits where
  nodes := by decide
  edges := by decide

/-- A rule whose interface has an edge between nodes that it does not have. -/
def wildRule : Rule where
  lhs := wildGraph
  interface := { edges := [{ tail := 0, head := 0, label := some "k" }] }
  toRhs := wildMapping

/-- The rule is made of the two and of nothing greater. -/
theorem wildRule_fits : wildRule.Fits where
  lhs := wildGraph_fits
  rhs := ⟨by simp [wildRule], by simp [wildRule]⟩
  interface := by
    refine ⟨fun e he => ?_, by simp [wildRule]⟩
    rw [List.mem_singleton.1 he]
    exact ⟨by decide, by decide⟩
  toLhs := ⟨by simp [wildRule], by simp [wildRule]⟩
  toRhs := wildMapping_fits

/-- Neither the escapes nor the greatest handle nor handles that name nothing are lost. -/
theorem json_roundtrip_wild :
    (wildGraph.Fits ∧
      Graph.schema.readText (Graph.schema.write wildGraph).compact = .ok wildGraph ∧
      Graph.schema.readText ((Graph.schema.write wildGraph).pretty ++ "\n") = .ok wildGraph) ∧
    (wildMapping.Fits ∧
      Mapping.schema.readText (Mapping.schema.write wildMapping).compact = .ok wildMapping ∧
      Mapping.schema.readText ((Mapping.schema.write wildMapping).pretty ++ "\n") =
        .ok wildMapping) ∧
    wildRule.Fits ∧ Rule.schema.readText (Rule.schema.write wildRule).compact = .ok wildRule ∧
      Rule.schema.readText ((Rule.schema.write wildRule).pretty ++ "\n") = .ok wildRule :=
  ⟨⟨wildGraph_fits, json_roundtrip.1 wildGraph wildGraph_fits⟩,
    ⟨wildMapping_fits, json_roundtrip.2.1 wildMapping wildMapping_fits⟩,
    wildRule_fits, json_roundtrip.2.2 wildRule wildRule_fits⟩

example : (Mapping.schema.write wildMapping).compact =
    "\x7b\"node_mapping\":[18446744073709551615],\"edge_mapping\":[[],[3,3]]\x7d" := by
  decide +kernel

end DoublePushout
