import DoublePushout.Matching

/-!
# `DoublePushout.Matching.Session`: sessions with a search

A `Session` is a search with a stack of saved copies. A request reads on from the current search,
counts what is left of it without moving it, saves a copy, or goes back to the copy saved last.

Every answer is given with the matches that were found on the way, in order. They include those
that a request passes over.
-/

set_option autoImplicit false

namespace DoublePushout

/-- A search and its saved copies, the last saved first. -/
structure Session where
  /-- The search that requests read from. -/
  current : Matches
  /-- The saved copies. -/
  saved : List Matches := []
  deriving Repr

/-- A request to a session. -/
inductive Request where
  /-- The next match. -/
  | next
  /-- The match after so many others. -/
  | nth (skipped : Nat)
  /-- So many matches, or all if fewer are left. -/
  | take (count : Nat)
  /-- The number of matches left. -/
  | count
  /-- Save a copy of the search. -/
  | save
  /-- Go back to the copy saved last, if there is one. -/
  | restore
  deriving DecidableEq, Repr

/-- The answer to a request. -/
inductive Reply where
  /-- A match, or none if no more are left. -/
  | single (m : Option Mapping)
  /-- Some matches. -/
  | several (ms : List Mapping)
  /-- A number of matches. -/
  | count (n : Nat)
  /-- The number of saved copies. -/
  | saved (n : Nat)
  deriving DecidableEq, Repr

/-- What a request leads to. -/
structure Response where
  /-- The answer. -/
  reply : Reply
  /-- The matches found on the way. -/
  found : List Mapping
  /-- The session afterwards. -/
  session : Session
  deriving Repr

namespace Matches

/-- The match after so many others, those others, and the search after it. -/
def nth (ms : Matches) (skipped : Nat) : List Mapping × Option Mapping × Matches :=
  let (passed, ms) := ms.take skipped
  if passed.length < skipped then (passed, none, ms)
  else
    match ms.next with
    | none => (passed, none, { ms with stack := [] })
    | some (m, ms) => (passed, some m, ms)

end Matches

/-- Answers a request. -/
def Session.respond (s : Session) : Request → Response
  | .next =>
    let (_, m, current) := s.current.nth 0
    ⟨.single m, m.toList, { s with current }⟩
  | .nth skipped =>
    let (passed, m, current) := s.current.nth skipped
    ⟨.single m, passed ++ m.toList, { s with current }⟩
  | .take count =>
    let (found, current) := s.current.take count
    ⟨.several found, found, { s with current }⟩
  | .count =>
    let found := s.current.toList
    ⟨.count found.length, found, s⟩
  | .save => ⟨.saved (s.saved.length + 1), [], { s with saved := s.current :: s.saved }⟩
  | .restore =>
    match s.saved with
    | [] => ⟨.saved 0, [], s⟩
    | copy :: saved => ⟨.saved saved.length, [], ⟨copy, saved⟩⟩

end DoublePushout
