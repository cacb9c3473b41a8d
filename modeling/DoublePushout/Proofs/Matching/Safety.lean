import DoublePushout.Matching.Session
import DoublePushout.Proofs.Matching.Reads

/-!
# `DoublePushout.Proofs.Matching.Safety`: a search reads no table outside it

`Query.checkedStep` is one step of a search that faults when it reads a table outside it. Here are
the searches made of such steps: for the next match, for so many of them, for the one after so
many, and for all. Each faults when one of its steps does.

A search is `Live` when it has come from its start by steps, and its reads are inside the tables.
Every search that begins is live (`live_of_start`), and what is left of a live search is live
(`Live.next`). So all of these searches give what they give without the checks
(`Live.checkedTake_eq`, `Live.checkedNth_eq`, `Live.checkedToList_eq`).
-/

set_option autoImplicit false

namespace DoublePushout

/-! ### The checked searches -/

namespace Query

variable {q : Query} {stack stack' : List Frame} {images : List NodeId}

/-- What a step can lead to, whatever its reads give. -/
theorem checkedStep_cons {f : Frame} {fs : List Frame} {s : Step}
    (h : q.checkedStep (f :: fs) = .ok s) :
    s = .moved (advance fs) ∨ f.cursor < q.candidateEnd f.assigned.length ∧
      (s = .moved (advance (f :: fs)) ∨
        f.assigned.length + 1 < q.pattern.nodes.length ∧
          s = .moved (⟨f.assigned ++ [f.cursor], 0⟩ :: f :: fs) ∨
        s = .found (f.assigned ++ [f.cursor]) (advance (f :: fs))) := by
  rw [checkedStep] at h
  by_cases hend : q.candidateEnd f.assigned.length ≤ f.cursor
  · rw [if_pos hend] at h
    exact .inl (pure_eq_ok.1 h).symm
  · rw [if_neg hend] at h
    obtain ⟨accepted, -, h⟩ := bind_eq_ok.1 h
    refine .inr ⟨Nat.lt_of_not_le hend, ?_⟩
    cases accepted with
    | false => exact .inl (pure_eq_ok.1 h).symm
    | true =>
      have h : (if (f.assigned ++ [f.cursor]).length < q.pattern.nodes.length then
          pure (.moved (⟨f.assigned ++ [f.cursor], 0⟩ :: f :: fs))
        else pure (.found (f.assigned ++ [f.cursor]) (advance (f :: fs))) : Except Fault Step) =
          .ok s := h
      rw [List.length_append, List.length_singleton] at h
      split at h
      · next hmore => exact .inr (.inl ⟨hmore, (pure_eq_ok.1 h).symm⟩)
      · exact .inr (.inr (pure_eq_ok.1 h).symm)

/-- A checked step that moves the search lowers the effort that is left. -/
theorem effort_lt_of_checkedStep_moved (h : q.checkedStep stack = .ok (.moved stack')) :
    q.effort stack' < q.effort stack := by
  cases stack with
  | nil => cases h
  | cons f fs =>
    rcases checkedStep_cons h with hs | ⟨hlt, hs | ⟨hmore, hs⟩ | hs⟩ <;> cases hs
    · refine Nat.lt_of_le_of_lt (q.effort_advance_le fs) ?_
      simp only [effort, frameEffort]
      omega
    · exact q.effort_advance_lt f fs hlt
    · exact q.effort_push_lt f fs _ (by simp) hlt (by simpa using hmore)

/-- So does a checked step that finds something. -/
theorem effort_lt_of_checkedStep_found (h : q.checkedStep stack = .ok (.found images stack')) :
    q.effort stack' < q.effort stack := by
  cases stack with
  | nil => cases h
  | cons f fs =>
    rcases checkedStep_cons h with hs | ⟨hlt, hs | ⟨-, hs⟩ | hs⟩ <;> cases hs
    exact q.effort_advance_lt f fs hlt

/-- The next match of a suspended search, and the search after it. -/
def checkedNext (q : Query) (stack : List Frame) :
    Except Fault (Option (List NodeId × List Frame)) :=
  match _h : q.checkedStep stack with
  | .error fault => .error fault
  | .ok .exhausted => .ok none
  | .ok (.moved stack') => q.checkedNext stack'
  | .ok (.found images stack') => .ok (some (images, stack'))
termination_by q.effort stack
decreasing_by exact effort_lt_of_checkedStep_moved _h

/-- The matches that a suspended search has yet to find. -/
def checkedRemaining (q : Query) (stack : List Frame) : Except Fault (List Mapping) :=
  match _h : q.checkedStep stack with
  | .error fault => .error fault
  | .ok .exhausted => .ok []
  | .ok (.moved stack') => q.checkedRemaining stack'
  | .ok (.found images stack') => do
    let m ← q.checkedMatch images
    return m :: (← q.checkedRemaining stack')
termination_by q.effort stack
decreasing_by
  · exact effort_lt_of_checkedStep_moved _h
  · exact effort_lt_of_checkedStep_found _h

end Query

namespace Matches

/-- The next match, and the search after it. -/
def checkedNext (ms : Matches) : Except Fault (Option (Mapping × Matches)) := do
  match ← ms.query.checkedNext ms.stack with
  | none => return none
  | some (images, stack) => return some (← ms.query.checkedMatch images, { ms with stack })

/-- Up to so many matches from here on, and the search after them. -/
def checkedTake : Nat → Matches → Except Fault (List Mapping × Matches)
  | 0, ms => return ([], ms)
  | n + 1, ms => do
    match ← ms.checkedNext with
    | none => return ([], { ms with stack := [] })
    | some (m, ms) =>
      let (found, ms) ← checkedTake n ms
      return (m :: found, ms)

/-- The match after so many others, those others, and the search after it. -/
def checkedNth (ms : Matches) (skipped : Nat) :
    Except Fault (List Mapping × Option Mapping × Matches) := do
  let (passed, ms) ← ms.checkedTake skipped
  if passed.length < skipped then return (passed, none, ms)
  match ← ms.checkedNext with
  | none => return (passed, none, { ms with stack := [] })
  | some (m, ms) => return (passed, some m, ms)

/-- All matches from here on. -/
def checkedToList (ms : Matches) : Except Fault (List Mapping) :=
  ms.query.checkedRemaining ms.stack

end Matches

/-! ### No search faults -/

namespace Query

variable {q : Query} {stack : List Frame}

/-- A search that comes to its end has given up all its frames. -/
theorem Reachable.nil (h : q.Reachable stack) (hs : q.step stack = .exhausted) :
    q.Reachable [] := by
  cases stack with
  | nil => exact h
  | cons f fs =>
    rcases q.step_cases f fs with ⟨-, hs'⟩ | ⟨-, -, hs'⟩ | ⟨-, -, -, hs'⟩ | ⟨-, -, -, hs'⟩ <;>
      cases hs.symm.trans hs'

/-- The next match is found after one checked step, or after that. -/
theorem checkedNext_eq_bind (q : Query) (stack : List Frame) :
    q.checkedNext stack = (q.checkedStep stack >>= fun
      | .exhausted => .ok none
      | .moved stack' => q.checkedNext stack'
      | .found images stack' => .ok (some (images, stack'))) := by
  rw [checkedNext]
  split <;> next h => rw [h]; rfl

/-- All matches are those of one checked step and those after it. -/
theorem checkedRemaining_eq_bind (q : Query) (stack : List Frame) :
    q.checkedRemaining stack = (q.checkedStep stack >>= fun
      | .exhausted => .ok []
      | .moved stack' => q.checkedRemaining stack'
      | .found images stack' => do
        let m ← q.checkedMatch images
        return m :: (← q.checkedRemaining stack')) := by
  rw [checkedRemaining]
  split <;> next h => rw [h]; rfl

/-- The next match is found without a fault, and so is what it maps the pattern to. -/
theorem Reachable.checkedNext_eq (hinside : q.ReadsInside) (h : q.Reachable stack) :
    q.checkedNext stack = .ok (q.next stack) ∧ (q.next stack = none → q.Reachable []) ∧
      ∀ images stack', q.next stack = some (images, stack') →
        q.Reachable stack' ∧ q.checkedMatch images = .ok (q.matchAt images) := by
  -- Along the steps of the search every stack is reachable.
  fun_induction Query.next q stack with
  | case1 stack hs =>
    rw [checkedNext_eq_bind, (hinside stack h).1, hs]
    refine ⟨rfl, fun _ => h.nil hs, fun images stack' hsome => ?_⟩
    cases hsome
  | case2 stack stack' hs ih =>
    rw [checkedNext_eq_bind, (hinside stack h).1, hs]
    exact ih (h.moved hs)
  | case3 stack images stack' hs =>
    rw [checkedNext_eq_bind, (hinside stack h).1, hs]
    refine ⟨rfl, fun hnone => ?_, fun images' stack'' hsome => ?_⟩
    · cases hnone
    · cases hsome
      exact ⟨h.found hs, (hinside stack h).2 images stack' hs⟩

/-- All matches are found without a fault. -/
theorem Reachable.checkedRemaining_eq (hinside : q.ReadsInside) (h : q.Reachable stack) :
    q.checkedRemaining stack = .ok ((q.remaining stack).map q.matchAt) := by
  -- By induction on the effort that the stack still takes, which every step makes less.
  induction heffort : q.effort stack using Nat.strong_induction_on generalizing stack with
  | _ n ih =>
    subst heffort
    rw [checkedRemaining_eq_bind, (hinside stack h).1, remaining_eq]
    cases hs : q.step stack with
    | exhausted => rfl
    | moved stack' => exact ih _ (effort_lt_of_moved hs) (h.moved hs) rfl
    | found images stack' =>
      show (q.checkedMatch images >>= fun m => q.checkedRemaining stack' >>= fun ms =>
        pure (m :: ms)) = _
      rw [(hinside stack h).2 images stack' hs, ih _ (effort_lt_of_found hs) (h.found hs) rfl]
      rfl

end Query

namespace Matches

variable {ms : Matches}

/-- The search has come from its start by steps, and its reads are inside the tables. -/
structure Live (ms : Matches) : Prop where
  inside : ms.query.ReadsInside
  reachable : ms.query.Reachable ms.stack

/-- A search that begins is live. -/
theorem live_of_start {pattern target : Graph} {injective : Bool}
    (h : (Query.of pattern target injective >>= start) = .ok ms) : ms.Live := by
  obtain ⟨q, hq, hstart⟩ := bind_eq_ok.1 h
  rw [Query.of] at hq
  split at hq
  · cases hq
  · next hne =>
    cases hq
    -- Only a pattern with its edges inside has passed the start.
    rw [start] at hstart
    split at hstart
    · cases hstart
    · next hclosed =>
      cases hstart
      refine ⟨Query.readsInside (fun h => hne (List.isEmpty_iff.2 h)) ?_ (Nat.le_refl _), .start⟩
      intro e he
      exact Nat.max_lt.1 (Nat.lt_of_not_le (by simpa using List.find?_eq_none.1 hclosed e he))

/-- The next match is found without a fault, and what is left of the search is live. -/
theorem Live.checkedNext_eq (h : ms.Live) :
    ms.checkedNext = .ok ms.next ∧ (ms.next = none → Live { ms with stack := [] }) ∧
      ∀ m ms', ms.next = some (m, ms') → ms'.Live := by
  obtain ⟨heq, hnone, hsome⟩ := h.reachable.checkedNext_eq h.inside
  rw [checkedNext, heq, next]
  cases hnext : ms.query.next ms.stack with
  | none =>
    refine ⟨rfl, fun _ => ⟨h.inside, hnone hnext⟩, fun m ms' hfound => ?_⟩
    cases hfound
  | some found =>
    obtain ⟨hreachable, hmatch⟩ := hsome found.1 found.2 hnext
    refine ⟨?_, fun hfound => ?_, fun m ms' hfound => ?_⟩
    · show (ms.query.checkedMatch found.1 >>= fun m =>
        pure (some (m, { ms with stack := found.2 }))) = _
      rw [hmatch]
      rfl
    · cases hfound
    · cases hfound
      exact ⟨h.inside, hreachable⟩

/-- So many matches are found without a fault. -/
theorem Live.checkedTake_eq (h : ms.Live) (n : Nat) :
    ms.checkedTake n = .ok (ms.take n) ∧ (ms.take n).2.Live := by
  -- The search after one match is live again, and the others are taken from it.
  induction n generalizing ms with
  | zero => exact ⟨rfl, h⟩
  | succ n ih =>
    obtain ⟨heq, hnone, hsome⟩ := h.checkedNext_eq
    rw [checkedTake, heq, take_succ]
    cases hnext : ms.next with
    | none => exact ⟨rfl, hnone hnext⟩
    | some found =>
      obtain ⟨htake, hlive⟩ := ih (hsome found.1 found.2 hnext)
      refine ⟨?_, hlive⟩
      show (checkedTake n found.2 >>= fun rest => pure (found.1 :: rest.1, rest.2)) = _
      rw [htake]
      rfl

/-- The match after so many others is found without a fault. -/
theorem Live.checkedNth_eq (h : ms.Live) (skipped : Nat) :
    ms.checkedNth skipped = .ok (ms.nth skipped) := by
  obtain ⟨htake, hlive⟩ := h.checkedTake_eq skipped
  rw [checkedNth, htake, nth]
  generalize ms.take skipped = found at hlive
  obtain ⟨passed, rest⟩ := found
  show (if passed.length < skipped then _ else (rest.checkedNext >>= _)) =
    Except.ok (if passed.length < skipped then _ else _)
  split
  · rfl
  · rw [hlive.checkedNext_eq.1]
    cases rest.next with
    | none => rfl
    | some found => rfl

/-- All matches are found without a fault. -/
theorem Live.checkedToList_eq (h : ms.Live) : ms.checkedToList = .ok ms.toList :=
  h.reachable.checkedRemaining_eq h.inside

end Matches

end DoublePushout
