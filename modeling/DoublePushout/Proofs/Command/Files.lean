import DoublePushout.Command.Workspace
import Mathlib.Data.List.Basic

/-!
# `DoublePushout.Proofs.Command.Files`: what a file holds after it is written

Paths are compared by their parts, and a file that is new is listed under its parts joined by
slashes. `pathParts_joined` says that this is the same path. From it follow the facts about
`Workspace.put`: the file that was written holds what was written (`mem_put`, `exists_mem_put`),
and every other path reads as before (`find?_put`). `textAfter_put` carries the first of them
through `changedSince`, which lists a file only if its text is a new one.
-/

set_option autoImplicit false

namespace DoublePushout.Command

/-! ### Paths -/

/-- What stands between the separators of a list does not contain the separator. -/
theorem not_mem_of_mem_splitOn {α : Type} [BEq α] [LawfulBEq α] {a : α} {xs : List α} :
    ∀ part ∈ xs.splitOn a, a ∉ part := by
  induction xs with
  | nil => simp
  | cons x xs ih =>
    rw [List.splitOn_cons_eq_if_modifyHead]
    split
    · simpa using ih
    · next hx =>
      obtain ⟨first, rest, heq⟩ := List.exists_cons_of_ne_nil (List.splitOn_ne_nil a xs)
      rw [heq, List.forall_mem_cons] at ih
      rw [heq, List.modifyHead_cons, List.forall_mem_cons]
      have hne : a ≠ x := fun h => hx (beq_iff_eq.2 h.symm)
      exact ⟨by simp [hne, ih.1], ih.2⟩

variable {path other : String}

/-- No segment of a path contains a slash. -/
theorem slash_not_mem {part : String} (h : part ∈ segments path) : '/' ∉ part.toList := by
  obtain ⟨cs, hcs, rfl⟩ := List.mem_map.1 h
  rw [String.toList_ofList]
  exact not_mem_of_mem_splitOn cs hcs

/-- Texts without slashes are the segments of the path that joins them. -/
theorem segments_intercalate {ps : List String} (hne : ps ≠ [])
    (h : ∀ part ∈ ps, '/' ∉ part.toList) : segments (String.intercalate "/" ps) = ps := by
  have hsplit : List.splitOn '/' (['/'].intercalate (ps.map String.toList)) =
      ps.map String.toList :=
    List.splitOn_intercalate _ (List.forall_mem_map.2 h) (by simpa using hne)
  rw [segments, String.toList_intercalate]
  show (List.splitOn '/' (['/'].intercalate (ps.map String.toList))).map String.ofList = ps
  rw [hsplit, List.map_map]
  simp

/-- A text that can be a part of a path. -/
def IsPart (part : String) : Prop := part ≠ "" ∧ part ≠ "." ∧ '/' ∉ part.toList

/-- All parts of a path are kept when empty ones and dots are dropped. -/
theorem filter_parts {ps : List String} (h : ∀ part ∈ ps, IsPart part) :
    ps.filter (fun part => part ≠ "" ∧ part ≠ ".") = ps := by
  rw [List.filter_eq_self]
  intro part hpart
  obtain ⟨hempty, hdot, -⟩ := h part hpart
  exact decide_eq_true ⟨hempty, hdot⟩

/-- Parts are those of the relative path that joins them. -/
theorem pathParts_relative {ps : List String} (hne : ps ≠ []) (h : ∀ part ∈ ps, IsPart part) :
    pathParts (String.intercalate "/" ps) = ps := by
  -- The path begins with its first part, which is not empty and has no slash.
  have hstart : (String.intercalate "/" ps).startsWith "/" = false := by
    obtain ⟨first, rest, rfl⟩ := List.exists_cons_of_ne_nil hne
    obtain ⟨hfirst, -, hslash⟩ := h first (by simp)
    obtain ⟨c, cs, hchars⟩ :=
      List.exists_cons_of_ne_nil (fun hnil => hfirst (String.toList_eq_nil_iff.1 hnil))
    rw [← Bool.not_eq_true, String.startsWith_string_iff, String.toList_intercalate]
    intro hprefix
    have hc : '/' = c := by
      cases rest with
      | nil => simpa [hchars] using hprefix
      | cons second rest => simpa [hchars] using hprefix
    exact hslash (by simp [hchars, ← hc])
  rw [pathParts, segments_intercalate hne fun part hpart => (h part hpart).2.2]
  simp only [filter_parts h, hstart]
  rfl

/-- Parts behind an empty first one are those of the absolute path that joins them. -/
theorem pathParts_absolute {ps : List String} (hne : ps ≠ []) (h : ∀ part ∈ ps, IsPart part) :
    pathParts (String.intercalate "/" ("" :: ps)) = "" :: ps := by
  have hkept : ("" :: ps).filter (fun part => part ≠ "" ∧ part ≠ ".") = ps := by
    rw [List.filter_cons_of_neg (by simp), filter_parts h]
  have hstart : (String.intercalate "/" ("" :: ps)).startsWith "/" = true := by
    obtain ⟨first, rest, rfl⟩ := List.exists_cons_of_ne_nil hne
    rw [String.startsWith_string_iff, String.toList_intercalate]
    simp
  have hslash : ∀ part ∈ "" :: ps, '/' ∉ part.toList :=
    List.forall_mem_cons.2 ⟨by simp, fun part hpart => (h part hpart).2.2⟩
  rw [pathParts, segments_intercalate (by simp) hslash]
  simp only [hkept, hstart]
  rfl

/-- A path that names a file ends in a part. -/
theorem exists_last_segment (h : namesFile path = true) :
    ∃ last ∈ segments path, last ≠ "" ∧ last ≠ "." := by
  rw [namesFile, Bool.and_eq_true] at h
  obtain ⟨-, h⟩ := h
  split at h
  · cases h
  · cases h
  · cases h
  · cases h
  · next last hempty hdot _ hlast =>
    exact ⟨last, List.mem_of_getLast? hlast, fun h => hempty (h ▸ rfl), fun h => hdot (h ▸ rfl)⟩

/-- A path that names a file is the same as its parts joined by slashes. -/
theorem pathParts_joined (h : namesFile path = true) :
    pathParts (String.intercalate "/" (pathParts path)) = pathParts path := by
  have hparts : ∀ part ∈ (segments path).filter (fun part => part ≠ "" ∧ part ≠ "."),
      IsPart part := by
    intro part hpart
    obtain ⟨hmem, hkeep⟩ := List.mem_filter.1 hpart
    have hkeep := of_decide_eq_true hkeep
    exact ⟨hkeep.1, hkeep.2, slash_not_mem hmem⟩
  -- The last segment of a file name is neither empty nor a dot, so something is left.
  have hne : (segments path).filter (fun part => part ≠ "" ∧ part ≠ ".") ≠ [] := by
    obtain ⟨last, hmem, hlast⟩ := exists_last_segment h
    exact List.ne_nil_of_mem (List.mem_filter.2 ⟨hmem, decide_eq_true hlast⟩)
  unfold pathParts
  dsimp only
  split
  · exact pathParts_absolute hne hparts
  · exact pathParts_relative hne hparts

example : pathParts "/tmp//./out.json" = ["", "tmp", "out.json"] := by decide +kernel

/-- Two paths are the same exactly if their parts are. -/
theorem samePath_iff : samePath path other = true ↔ pathParts path = pathParts other := by
  rw [samePath, decide_eq_true_iff]

/-! ### Workspaces -/

namespace Workspace

variable {ws : Workspace} {text : String}

/-- Only a path that names a file is found. -/
theorem namesFile_of_find? (h : ws.find? path = some text) : namesFile path = true := by
  cases hname : namesFile path with
  | true => rfl
  | false =>
    rw [find?, hname] at h
    cases h

/-- Apart from the null device a path that names a file is looked up among the files. -/
theorem find?_file (hname : namesFile path = true) (hdevice : pathParts path ≠ nullDevice) :
    ws.find? path = (ws.files.find? fun f => samePath f.1 path).map (·.2) := by
  rw [find?, hname, if_neg hdevice]
  rfl

/-- Only a path that names a file can be created. -/
theorem namesFile_of_canCreate (h : ws.canCreate path = true) : namesFile path = true := by
  rw [canCreate, Bool.and_eq_true] at h
  exact h.1

/-- What a file holds under one path it holds under every path that means the same. -/
theorem find?_congr (hpath : namesFile path = true) (hother : namesFile other = true)
    (h : pathParts path = pathParts other) : ws.find? path = ws.find? other := by
  have hsame : (fun f : String × String => samePath f.1 path) = fun f => samePath f.1 other := by
    funext f
    rw [samePath, samePath, h]
  rw [find?, find?, hpath, hother, h, hsame]

/-- A file that was written holds what was written. -/
theorem mem_put (hdevice : pathParts path ≠ nullDevice) {f : String × String}
    (hf : f ∈ (ws.put path text).files) (hsame : samePath f.1 path = true) : f.2 = text := by
  rw [put, if_neg hdevice] at hf
  split at hf
  · obtain ⟨old, -, rfl⟩ := List.mem_map.1 hf
    by_cases hold : samePath old.1 path = true
    · rw [if_pos hold]
    · rw [if_neg hold] at hsame
      exact absurd hsame hold
  · next hnone =>
    rcases List.mem_append.1 hf with hold | hnew
    · exact absurd (List.any_eq_true.2 ⟨f, hold, hsame⟩) hnone
    · rw [List.mem_singleton.1 hnew]

/-- A file that was written is there. -/
theorem exists_mem_put (hname : namesFile path = true) (hdevice : pathParts path ≠ nullDevice) :
    ∃ f ∈ (ws.put path text).files, samePath f.1 path = true := by
  rw [put, if_neg hdevice]
  split
  · next hold =>
    obtain ⟨f, hf, hsame⟩ := List.any_eq_true.1 hold
    exact ⟨_, List.mem_map_of_mem hf, by rw [if_pos hsame]; exact hsame⟩
  · exact ⟨_, List.mem_append_right _ (List.mem_singleton_self _),
      samePath_iff.2 (pathParts_joined hname)⟩

/-- Writing a file leaves the others as they are. -/
theorem find?_put (hname : namesFile path = true) (hne : pathParts path ≠ pathParts other) :
    (ws.put path text).find? other = ws.find? other := by
  have hfiles : (ws.put path text).files.find? (fun f => samePath f.1 other) =
      ws.files.find? fun f => samePath f.1 other := by
    unfold put
    split
    · rfl
    · split
      · -- The files that are rewritten are not the one that is looked for.
        rw [List.find?_map]
        have hkeys : (fun f => samePath f.1 other) ∘
            (fun f : String × String => if samePath f.1 path then (f.1, text) else f) =
              fun f => samePath f.1 other := by
          funext f
          show samePath (if samePath f.1 path then (f.1, text) else f).1 other = _
          split <;> rfl
        rw [hkeys]
        cases hfound : ws.files.find? fun f => samePath f.1 other with
        | none => rfl
        | some f =>
          have hother : samePath f.1 other = true := by simpa using List.find?_some hfound
          have hkept : ¬ samePath f.1 path = true := fun h =>
            hne ((samePath_iff.1 h).symm.trans (samePath_iff.1 hother))
          rw [Option.map_some, if_neg hkept]
      · have hnew : ¬ samePath (String.intercalate "/" (pathParts path)) other = true := by
          rw [samePath_iff, pathParts_joined hname]
          exact hne
        rw [List.find?_append, List.find?_singleton, if_neg hnew, Option.or_none]
  rw [find?, find?, hfiles]

/-- What a file holds once the given files have changed. -/
def textAfter (ws : Workspace) (changed : List (String × String)) (path : String) :
    Option String :=
  ((changed.find? fun f => samePath f.1 path).map (·.2)).or (ws.find? path)

/-- What a later workspace has been given for a file is what the file holds after the changes. -/
theorem textAfter_put (hname : namesFile path = true) (hdevice : pathParts path ≠ nullDevice)
    (middle : Workspace) :
    ws.textAfter ((middle.put path text).changedSince ws) path = some text := by
  rw [textAfter]
  cases hfound : ((middle.put path text).changedSince ws).find? fun f => samePath f.1 path with
  | some f =>
    have hsame : samePath f.1 path = true := by simpa using List.find?_some hfound
    have hmem := List.mem_of_mem_filter (List.mem_of_find?_eq_some hfound)
    rw [Option.map_some, mem_put hdevice hmem hsame, Option.some_or]
  | none =>
    -- The file is not among the changes, so it has had the text before.
    have hwritten : ∃ f ∈ (middle.put path text).files, samePath f.1 path = true :=
      exists_mem_put hname hdevice
    obtain ⟨f, hmem, hsame⟩ := hwritten
    have hbefore : ws.find? f.1 = some text := by
      by_contra hnew
      rw [← mem_put hdevice hmem hsame] at hnew
      have hchanged : f ∈ (middle.put path text).changedSince ws :=
        List.mem_filter.2 ⟨hmem, decide_eq_true hnew⟩
      exact List.find?_eq_none.1 hfound f hchanged hsame
    rw [Option.map_none, Option.none_or, ← hbefore]
    exact find?_congr hname (namesFile_of_find? hbefore) (samePath_iff.1 hsame).symm

end Workspace

end DoublePushout.Command
