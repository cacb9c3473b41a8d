import DoublePushout.Json.Schema
import DoublePushout.Proofs.Json.Tokens
import DoublePushout.Proofs.Steps
import Mathlib.Data.List.Nodup

/-!
# `DoublePushout.Proofs.Json.RoundTrip`: structures that are written and read back

A written value is parsed to what it is (`Value.parsed`): `value_tokens` says so for any text
behind it, and `ofText_render` for a whole text in any layout, with blanks at its end.

`Schema.read_write` is about structures. A record is read field by field, and a field that has
been left out keeps what the blank structure has. So reading a written structure comes down to
going through the fields of its schema once (`Schema.reread`), in order, as far as no name is used
twice and no required field is left out.
-/

set_option autoImplicit false

namespace DoublePushout.Json

/-! ### Steps of the parser -/

namespace Parsed

variable {bound : Nat} {ts rest rest' : List Token} {v : Parsed} {vs : List Parsed}
  {closed : Bool}

/-- A bracket that is not closed at once begins the list of the items behind it. -/
theorem value_openList (h : ∀ r, ts ≠ .closeList :: r)
    (hitems : items bound ts = (vs, closed, rest)) :
    value (bound + 1) (.openList :: ts) = (.list vs closed, rest) := by
  rw [value]
  · rw [hitems]
  · exact fun r hr => h r hr

/-- A brace that is not closed at once begins the record of the entries behind it. -/
theorem value_openRecord {es : List (Option String × Parsed)} (h : ∀ r, ts ≠ .closeRecord :: r)
    (hentries : entries bound ts = (es, closed, rest)) :
    value (bound + 1) (.openRecord :: ts) = (.record es closed, rest) := by
  rw [value]
  · rw [hentries]
  · exact fun r hr => h r hr

/-- An item with a comma behind it is the first of the items. -/
theorem items_comma (hvalue : value bound ts = (v, .comma :: rest))
    (hitems : items bound rest = (vs, closed, rest')) :
    items (bound + 1) ts = (v :: vs, closed, rest') := by
  rw [items, hvalue]
  show (v :: (items bound rest).1, (items bound rest).2.1, (items bound rest).2.2) = _
  rw [hitems]

/-- An entry with a comma behind it is the first of the entries. -/
theorem entries_comma {key : Option String} {es : List (Option String × Parsed)}
    (hvalue : value bound ts = (v, .comma :: rest))
    (hentries : entries bound rest = (es, closed, rest')) :
    entries (bound + 1) (.text key :: .colon :: ts) = ((key, v) :: es, closed, rest') := by
  rw [entries, hvalue]
  show ((key, v) :: (entries bound rest).1, (entries bound rest).2.1,
    (entries bound rest).2.2) = _
  rw [hentries]

end Parsed

/-! ### Parsing what is written -/

namespace Value

mutual

/-- The structure of a value in JSON text. -/
def parsed : Value → Parsed
  | .natural n => .number (.natural n)
  | .text s => .text (some s)
  | .list vs => .list (parsedItems vs) true
  | .record fs => .record (parsedFields fs) true

/-- The structures of the items of a list. -/
def parsedItems : List Value → List Parsed
  | [] => []
  | v :: vs => v.parsed :: parsedItems vs

/-- The structures of the entries of a record. -/
def parsedFields : List (String × Value) → List (Option String × Parsed)
  | [] => []
  | (key, v) :: fs => (some key, v.parsed) :: parsedFields fs

end

/-- The items of a list are parsed one by one. -/
theorem parsedItems_eq (vs : List Value) : parsedItems vs = vs.map parsed := by
  induction vs with
  | nil => rfl
  | cons v vs ih => rw [parsedItems, ih, List.map_cons]

/-- The fields of a record are parsed one by one, under their names. -/
theorem parsedFields_eq (fs : List (String × Value)) :
    parsedFields fs = fs.map fun f => (some f.1, f.2.parsed) := by
  induction fs with
  | nil => rfl
  | cons f fs ih =>
    obtain ⟨key, v⟩ := f
    rw [parsedFields, ih, List.map_cons]

/-- A value does not begin with a closing bracket. -/
theorem exists_tokens_eq (v : Value) :
    ∃ t ts, v.tokens = t :: ts ∧ t ≠ .closeList ∧ t ≠ .closeRecord := by
  cases v with
  | natural n => exact ⟨_, _, rfl, by simp, by simp⟩
  | text s => exact ⟨_, _, rfl, by simp, by simp⟩
  | list vs =>
    cases vs with
    | nil => exact ⟨_, _, rfl, by simp, by simp⟩
    | cons v vs => exact ⟨_, _, rfl, by simp, by simp⟩
  | record fs =>
    cases fs with
    | nil => exact ⟨_, _, rfl, by simp, by simp⟩
    | cons f fs =>
      obtain ⟨key, v⟩ := f
      exact ⟨_, _, rfl, by simp, by simp⟩

mutual

/-- The tokens of a value are parsed to its structure, and what follows is left. -/
theorem value_tokens : ∀ (v : Value) (bound : Nat) (rest : List Token), v.tokens.length ≤ bound →
    Parsed.value bound (v.tokens ++ rest) = (v.parsed, rest)
  | v, 0, rest, hbound => by
    -- Every value has a token, so there is a step for it.
    obtain ⟨t, ts, heq, -, -⟩ := v.exists_tokens_eq
    rw [heq] at hbound
    cases hbound
  | .natural n, bound + 1, rest, hbound => by
    rw [tokens, parsed]
    rfl
  | .text s, bound + 1, rest, hbound => by
    rw [tokens, parsed]
    rfl
  | .list [], bound + 1, rest, hbound => by
    rw [tokens, parsed, parsedItems]
    rfl
  | .list (v :: vs), bound + 1, rest, hbound => by
    rw [tokens, List.length_cons, List.length_append] at hbound
    obtain ⟨t, ts, heq, hne, -⟩ := v.exists_tokens_eq
    rw [tokens, parsed, parsedItems, List.cons_append, List.append_assoc]
    refine Parsed.value_openList (fun r hr => hne ?_) (items_tokens v vs bound rest (by omega))
    rw [heq] at hr
    exact (List.cons.inj hr).1
  | .record [], bound + 1, rest, hbound => by
    rw [tokens, parsed, parsedFields]
    rfl
  | .record ((key, v) :: fs), bound + 1, rest, hbound => by
    rw [tokens, List.length_cons, List.length_cons, List.length_cons,
      List.length_append] at hbound
    rw [tokens, parsed, parsedFields]
    simp only [List.cons_append, List.append_assoc]
    refine Parsed.value_openRecord (fun r hr => ?_)
      (entries_tokens key v fs bound rest (by omega))
    cases hr

/-- The tokens of the items of a list, closed by a bracket, are read as these items. -/
theorem items_tokens : ∀ (v : Value) (vs : List Value) (bound : Nat) (rest : List Token),
    v.tokens.length + (itemTokens vs).length ≤ bound →
    Parsed.items bound (v.tokens ++ (itemTokens vs ++ rest)) =
      (v.parsed :: parsedItems vs, true, rest)
  | v, vs, 0, rest, hbound => by
    -- Every value has a token, so a bound of zero does not arise.
    obtain ⟨t, ts, heq, -, -⟩ := v.exists_tokens_eq
    rw [heq, List.length_cons] at hbound
    omega
  | v, [], bound + 1, rest, hbound => by
    rw [itemTokens, List.length_singleton] at hbound
    rw [Parsed.items, value_tokens v bound _ (by omega), itemTokens, parsedItems]
    rfl
  | v, w :: vs, bound + 1, rest, hbound => by
    rw [itemTokens, List.length_cons, List.length_append] at hbound
    rw [itemTokens, parsedItems, List.cons_append, List.append_assoc]
    exact Parsed.items_comma (value_tokens v bound _ (by omega))
      (items_tokens w vs bound rest (by omega))

/-- The tokens of the fields of a record, closed by a brace, are read as these fields. -/
theorem entries_tokens : ∀ (key : String) (v : Value) (fs : List (String × Value)) (bound : Nat)
    (rest : List Token), v.tokens.length + (fieldTokens fs).length ≤ bound →
    Parsed.entries bound (.text (some key) :: .colon :: (v.tokens ++ (fieldTokens fs ++ rest))) =
      ((some key, v.parsed) :: parsedFields fs, true, rest)
  | key, v, fs, 0, rest, hbound => by
    obtain ⟨t, ts, heq, -, -⟩ := v.exists_tokens_eq
    rw [heq, List.length_cons] at hbound
    omega
  | key, v, [], bound + 1, rest, hbound => by
    rw [fieldTokens, List.length_singleton] at hbound
    rw [Parsed.entries, value_tokens v bound _ (by omega), fieldTokens, parsedFields]
    rfl
  | key, v, (key', w) :: fs, bound + 1, rest, hbound => by
    rw [fieldTokens, List.length_cons, List.length_cons, List.length_cons, List.length_append]
      at hbound
    rw [fieldTokens, parsedFields]
    simp only [List.cons_append, List.append_assoc]
    exact Parsed.entries_comma (value_tokens v bound _ (by omega))
      (entries_tokens key' w fs bound rest (by omega))

end

/-- A whole text that is written for a value in some layout, perhaps with blanks behind it, is
parsed to the structure of the value. -/
theorem ofText_render {lay : Layout} (hlay : lay.Blank) {v : Value} (hv : v.Fits)
    {blanks : List Char} (hblanks : ∀ c ∈ blanks, Token.isBlank c = true) :
    Parsed.ofText (String.ofList (v.render lay 0 ++ blanks)) = (v.parsed, true) := by
  have hend : Token.scan blanks = [] := by
    have hscan := Token.scan_blanks hblanks []
    rw [List.append_nil] at hscan
    rw [hscan, Token.scan]
    rfl
  have hnumber : EndsNumber blanks := by
    have happend := endsNumber_blanks hblanks endsNumber_nil
    rwa [List.append_nil] at happend
  rw [Parsed.ofText, String.toList_ofList, scan_render hlay v 0 blanks hv hnumber, hend]
  rw [value_tokens v _ [] (by rw [List.append_nil]; omega)]
  rfl

end Value

/-! ### Structures -/

namespace Schema

variable {α : Type} {s : Schema α} {a b : α}

/-- Reads one field of a written structure into another, if it has been written. -/
def reread (a : α) (acc : α) (f : Field α) : Except ReadError α :=
  match f.write a with
  | none => .ok acc
  | some v => f.read v.parsed acc

/-- The entries that are written for some fields. -/
def written (a : α) (fs : List (Field α)) : List (Option String × Parsed) :=
  fs.filterMap fun f => (f.write a).map fun v => (some f.name, v.parsed)

/-- What a schema writes is parsed as a record of its written fields. -/
theorem parsed_write (s : Schema α) (a : α) :
    (s.write a).parsed = .record (written a s.fields) true := by
  rw [write, Value.parsed, Value.parsedFields_eq, written, List.map_filterMap]
  refine congrArg (Parsed.record · true) (List.filterMap_congr fun f _ => ?_)
  rw [Option.map_map]
  rfl

/-- A field is found under its name when no field before it has the name. -/
theorem find?_name_eq (hnames : (s.fields.map (·.name)).Nodup) {f : Field α} (hf : f ∈ s.fields) :
    s.fields.find? (·.name = f.name) = some f := by
  cases hfind : s.fields.find? (·.name = f.name) with
  | none => exact absurd (by simp) (List.find?_eq_none.1 hfind f hf)
  | some g =>
    have hname : g.name = f.name := by simpa using List.find?_some hfind
    rw [List.inj_on_of_nodup_map hnames (List.mem_of_find?_eq_some hfind) hf hname]

/-- Reading the entries that are written for some fields is going through these fields. The names
read before are given; afterwards the names of all fields that have been written are. -/
theorem readEntries_written (hnames : (s.fields.map (·.name)).Nodup) :
    ∀ (fs : List (Field α)) (acc : α) (given : List String),
      (∀ f ∈ fs, f ∈ s.fields ∧ f.name ∉ given) → (fs.map (·.name)).Nodup →
      fs.foldlM (reread a) acc = .ok b →
      ∃ given', s.readEntries (written a fs) (acc, given) = .ok (b, given') ∧
        (∀ name ∈ given, name ∈ given') ∧ ∀ f ∈ fs, f.write a ≠ none → f.name ∈ given' := by
  intro fs
  induction fs with
  | nil =>
    intro acc given _ _ hfold
    cases hfold
    exact ⟨given, rfl, fun _ h => h, by simp⟩
  | cons f fs ih =>
    intro acc given hfs hnodup hfold
    rw [List.map_cons, List.nodup_cons] at hnodup
    rw [List.foldlM_cons] at hfold
    obtain ⟨acc', hread, hfold⟩ := bind_eq_ok.1 hfold
    obtain ⟨hf, hgiven⟩ := hfs f (by simp)
    cases hwrite : f.write a with
    | none =>
      -- The field is left out, and so are its entry and its step.
      obtain rfl : acc = acc' := by
        rw [reread, hwrite] at hread
        exact Except.ok.inj hread
      obtain ⟨given', hentries, hkeeps, hnew⟩ :=
        ih acc given (fun g hg => hfs g (by simp [hg])) hnodup.2 hfold
      refine ⟨given', ?_, hkeeps, ?_⟩
      · rw [written, List.filterMap_cons, hwrite]
        exact hentries
      · exact List.forall_mem_cons.2 ⟨fun h => absurd hwrite h, hnew⟩
    | some v =>
      have hread : f.read v.parsed acc = .ok acc' := by
        rw [reread, hwrite] at hread
        exact hread
      have hrest : ∀ g ∈ fs, g ∈ s.fields ∧ g.name ∉ f.name :: given := by
        intro g hg
        obtain ⟨hmem, hnot⟩ := hfs g (by simp [hg])
        refine ⟨hmem, fun h => ?_⟩
        rcases List.mem_cons.1 h with h | h
        · exact hnodup.1 (h ▸ List.mem_map_of_mem hg)
        · exact hnot h
      obtain ⟨given', hentries, hkeeps, hnew⟩ := ih acc' (f.name :: given) hrest hnodup.2 hfold
      refine ⟨given', ?_, fun name h => hkeeps name (by simp [h]), ?_⟩
      · rw [written, List.filterMap_cons, hwrite]
        show s.readEntries ((some f.name, v.parsed) :: written a fs) (acc, given) = _
        rw [readEntries, find?_name_eq hnames hf]
        show (if f.name ∈ given then _ else _) = _
        rw [if_neg hgiven, hread]
        exact hentries
      · exact List.forall_mem_cons.2 ⟨fun _ => hkeeps _ (by simp), hnew⟩

/-- A structure that has been written is read as what going through its fields gives. -/
theorem read_write (hnames : (s.fields.map (·.name)).Nodup)
    (hrequired : ∀ f ∈ s.fields, f.required = true → f.write a ≠ none)
    (hfields : s.fields.foldlM (reread a) s.blank = .ok b) :
    s.read (s.write a).parsed = .ok b := by
  obtain ⟨given, hentries, -, hgiven⟩ :=
    readEntries_written hnames s.fields s.blank [] (fun f hf => ⟨hf, by simp⟩) hnames hfields
  -- Each required field was written, and so has been read.
  have hnone : s.fields.find? (fun f => f.required && !given.contains f.name) = none := by
    rw [List.find?_eq_none]
    intro f hf hmissing
    simp only [Bool.and_eq_true, Bool.not_eq_true', List.contains_eq_mem, decide_eq_false_iff_not]
      at hmissing
    exact hmissing.2 (hgiven f hf (hrequired f hf hmissing.1))
  rw [parsed_write]
  show (s.readEntries _ _ >>= _) = _
  rw [hentries]
  simp only [bind, Except.bind, hnone]
  rfl

end Schema

end DoublePushout.Json
