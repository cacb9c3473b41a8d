import DoublePushout.Proofs.Matching.Exactness
import DoublePushout.Rewriting

/-!
# `DoublePushout.Proofs.Matching.Cursor`: a session is a cursor into the list of matches

A `Session` holds suspended searches, each a stack left in the middle of its work. This module
says that nothing of this can be seen. A session answers every request like a `Cursor`, which
knows the list of all matches and has a position in it, and saved positions instead of saved
stacks.

A search stands at a position when what it has yet to find is the list from there on. One read of
the search moves it by one (`Matches.toList_of_next`). From it follow the two reads that go
further, `take_toList` and `nth_toList`. `Session.StandsAt.respond` says what one request does to
a session and its cursor, and `Session.StandsAt.after` what a sequence of requests does.

`respond_after_eq` is the main statement, with `Session.after` for the session after a sequence of
requests. It also says that a search at its end stays there until a copy is restored.
-/

set_option autoImplicit false

namespace DoublePushout

/-! ### Reading a search -/

/-- A search finds what its next read reports, and then what the search after it finds. -/
theorem Query.remaining_eq_next (q : Query) (stack : List Frame) :
    q.remaining stack = (q.next stack).elim [] fun r => r.1 :: q.remaining r.2 := by
  -- A read goes on until a step reports something, and so does the list of what is left.
  fun_induction Query.next q stack with
  | case1 stack h => rw [Query.remaining_eq, h]; rfl
  | case2 stack stack' h ih => rw [Query.remaining_eq, h]; exact ih
  | case3 stack images stack' h => rw [Query.remaining_eq, h]; rfl

namespace Matches

variable {ms ms' : Matches} {m : Mapping}

/-- A search without a next match has none left. -/
theorem toList_of_next_eq_none (h : ms.next = none) : ms.toList = [] := by
  rw [next, Option.map_eq_none_iff] at h
  rw [toList, Query.remaining_eq_next, h]
  rfl

/-- The next match of a search is the first of those left, and the others are left after it. -/
theorem toList_of_next (h : ms.next = some (m, ms')) : ms.toList = m :: ms'.toList := by
  rw [next, Option.map_eq_some_iff] at h
  obtain ⟨⟨images, stack⟩, hnext, heq⟩ := h
  cases heq
  rw [toList, Query.remaining_eq_next, hnext]
  rfl

/-- A search without frames has nothing left to find. -/
theorem toList_of_stack_nil : ({ ms with stack := [] } : Matches).toList = [] := by
  rw [toList, Query.remaining_eq]
  rfl

/-- Taking some matches takes them from the front of what is left. -/
theorem take_toList (n : Nat) (ms : Matches) :
    (take n ms).1 = ms.toList.take n ∧ (take n ms).2.toList = ms.toList.drop n := by
  induction n generalizing ms with
  | zero => exact ⟨rfl, rfl⟩
  | succ n ih =>
    rw [take_succ]
    cases hnext : ms.next with
    | none =>
      rw [toList_of_next_eq_none hnext]
      exact ⟨rfl, toList_of_stack_nil⟩
    | some r =>
      rw [toList_of_next hnext, List.take_succ_cons, List.drop_succ_cons]
      obtain ⟨hfound, hrest⟩ := ih r.2
      exact ⟨congrArg _ hfound, hrest⟩

/-- Reading past some matches gives them, the match after them, and the search after that. -/
theorem nth_toList (n : Nat) (ms : Matches) :
    (ms.nth n).1 = ms.toList.take n ∧ (ms.nth n).2.1 = ms.toList[n]? ∧
      (ms.nth n).2.2.toList = ms.toList.drop (n + 1) := by
  obtain ⟨hpassed, hrest⟩ := take_toList n ms
  rw [nth]
  generalize take n ms = r at hpassed hrest ⊢
  obtain ⟨passed, rest⟩ := r
  dsimp only at hpassed hrest ⊢
  have hlen : passed.length = min n ms.toList.length := by
    rw [hpassed, List.length_take]
  split
  · -- The search ended among the matches that were to be passed over.
    have hle : ms.toList.length ≤ n := by omega
    refine ⟨hpassed, (List.getElem?_eq_none hle).symm, ?_⟩
    show rest.toList = _
    rw [hrest, List.drop_eq_nil_of_le hle, List.drop_eq_nil_of_le (by omega)]
  · -- Enough matches were left to pass over `n` of them, so the next one has index `n`.
    have hhead : ms.toList[n]? = rest.toList.head? := by
      rw [hrest, List.head?_drop]
    have htail : ms.toList.drop (n + 1) = rest.toList.tail := by
      rw [hrest, List.tail_drop]
    rw [hhead, htail]
    cases hnext : rest.next with
    | none =>
      rw [toList_of_next_eq_none hnext]
      exact ⟨hpassed, rfl, toList_of_stack_nil⟩
    | some r =>
      rw [toList_of_next hnext]
      exact ⟨hpassed, rfl, rfl⟩

end Matches

/-! ### Cursors -/

/-- A position in a list of matches, and saved positions, the last saved first. -/
structure Cursor where
  /-- The number of matches before the position. -/
  position : Nat := 0
  /-- The saved positions. -/
  saved : List Nat := []
  deriving DecidableEq, Repr

namespace Cursor

/-- The answer that the position gives to a request. -/
def reply (all : List Mapping) (c : Cursor) : Request → Reply
  | .next => .single all[c.position]?
  | .nth skipped => .single all[c.position + skipped]?
  | .take count => .several ((all.drop c.position).take count)
  | .count => .count (all.length - c.position)
  | .save => .saved (c.saved.length + 1)
  | .restore => .saved (c.saved.length - 1)

/-- The matches that a request reads from the position on. -/
def found (all : List Mapping) (c : Cursor) : Request → List Mapping
  | .next => (all.drop c.position).take 1
  | .nth skipped => (all.drop c.position).take (skipped + 1)
  | .take count => (all.drop c.position).take count
  | .count => all.drop c.position
  | .save => []
  | .restore => []

/-- The cursor moved on by so many matches, or to the end if fewer are left. -/
def advance (all : List Mapping) (c : Cursor) (n : Nat) : Cursor :=
  { c with position := min (c.position + n) all.length }

/-- The cursor after a request. -/
def move (all : List Mapping) (c : Cursor) : Request → Cursor
  | .next => c.advance all 1
  | .nth skipped => c.advance all (skipped + 1)
  | .take count => c.advance all count
  | .count => c
  | .save => { c with saved := c.position :: c.saved }
  | .restore =>
    match c.saved with
    | [] => c
    | position :: saved => ⟨position, saved⟩

/-- The cursor after a sequence of requests. -/
def after (all : List Mapping) (c : Cursor) (requests : List Request) : Cursor :=
  requests.foldl (move all) c

variable {all : List Mapping} {c : Cursor}

/-- What is left at a cursor that has moved on is what was left there before, less what it has
passed. -/
theorem drop_advance (n : Nat) :
    all.drop (c.advance all n).position = (all.drop c.position).drop n := by
  rw [List.drop_drop, advance]
  rcases Nat.le_total (c.position + n) all.length with hle | hle
  · rw [Nat.min_eq_left hle]
  · rw [Nat.min_eq_right hle, List.drop_length, List.drop_eq_nil_of_le hle]

/-- Without a restored copy a cursor at the end stays there. -/
theorem position_after_of_end {requests : List Request} (hend : all.length ≤ c.position)
    (hkeep : .restore ∉ requests) : all.length ≤ (c.after all requests).position := by
  induction requests generalizing c with
  | nil => exact hend
  | cons request requests ih =>
    obtain ⟨hrequest, hrequests⟩ := not_or.1 (mt List.mem_cons.2 hkeep)
    refine ih ?_ hrequests
    -- The three reads stop at the end, and the other requests leave the position alone.
    cases request with
    | next => show all.length ≤ min _ _; omega
    | nth skipped => show all.length ≤ min _ _; omega
    | take count => show all.length ≤ min _ _; omega
    | count => exact hend
    | save => exact hend
    | restore => exact absurd rfl hrequest

end Cursor

/-! ### Sessions and their cursors -/

namespace Session

/-- The session after a sequence of requests. -/
def after (s : Session) (requests : List Request) : Session :=
  requests.foldl (fun s request => (s.respond request).session) s

/-- The session stands where the cursor is: its search has yet to find the matches from the
position on, and likewise each saved copy those from its saved position on. -/
structure StandsAt (s : Session) (all : List Mapping) (c : Cursor) : Prop where
  current_eq : s.current.toList = all.drop c.position
  saved_eq : s.saved.map Matches.toList = c.saved.map all.drop

namespace StandsAt

variable {s : Session} {all : List Mapping} {c : Cursor}

/-- A session whose search has been read further stands where its cursor has been moved to. -/
theorem advance (h : s.StandsAt all c) {n : Nat} {current : Matches}
    (hcurrent : current.toList = s.current.toList.drop n) :
    StandsAt { s with current } all (c.advance all n) where
  current_eq := by rw [hcurrent, h.current_eq, Cursor.drop_advance]
  saved_eq := h.saved_eq

/-- A session has as many saved copies as its cursor. -/
theorem length_saved (h : s.StandsAt all c) : s.saved.length = c.saved.length := by
  simpa using congrArg List.length h.saved_eq

/-- What a read gives that passes over some matches: it stops at the match after them. -/
theorem respond_nth (h : s.StandsAt all c) (n : Nat) :
    (s.current.nth n).2.1 = all[c.position + n]? ∧
      (s.current.nth n).1 ++ (s.current.nth n).2.1.toList = (all.drop c.position).take (n + 1) ∧
      StandsAt { s with current := (s.current.nth n).2.2 } all (c.advance all (n + 1)) := by
  obtain ⟨hpassed, hmatch, hrest⟩ := Matches.nth_toList n s.current
  refine ⟨?_, ?_, h.advance hrest⟩
  · rw [hmatch, h.current_eq, List.getElem?_drop]
  · rw [hpassed, hmatch, h.current_eq, List.take_add_one]

/-- One request: the session answers like its cursor, and stands where the cursor is moved to. -/
theorem respond (h : s.StandsAt all c) (request : Request) :
    (s.respond request).reply = c.reply all request ∧
      (s.respond request).found = c.found all request ∧
      (s.respond request).session.StandsAt all (c.move all request) := by
  cases request with
  | next =>
    obtain ⟨hreply, hfound, hstands⟩ := h.respond_nth 0
    -- With nothing to pass over, no match has been read before the one asked for.
    have hpassed : (s.current.nth 0).1 = [] := (Matches.nth_toList 0 s.current).1
    rw [hpassed, List.nil_append] at hfound
    exact ⟨congrArg Reply.single hreply, hfound, hstands⟩
  | nth skipped =>
    obtain ⟨hreply, hfound, hstands⟩ := h.respond_nth skipped
    exact ⟨congrArg Reply.single hreply, hfound, hstands⟩
  | take count =>
    obtain ⟨hfound, hrest⟩ := Matches.take_toList count s.current
    rw [h.current_eq] at hfound
    exact ⟨congrArg Reply.several hfound, hfound, h.advance hrest⟩
  | count =>
    have hlen : s.current.toList.length = all.length - c.position := by
      rw [h.current_eq, List.length_drop]
    exact ⟨congrArg Reply.count hlen, h.current_eq, h⟩
  | save =>
    refine ⟨?_, rfl, h.current_eq, ?_⟩
    · show Reply.saved (s.saved.length + 1) = .saved (c.saved.length + 1)
      rw [h.length_saved]
    · show s.current.toList :: s.saved.map Matches.toList =
        all.drop c.position :: c.saved.map all.drop
      rw [h.current_eq, h.saved_eq]
  | restore =>
    have hsaved := h.saved_eq
    -- The two stacks of copies have the same height.
    cases hs : s.saved with
    | nil =>
      cases hc : c.saved with
      | nil => simpa [Session.respond, Cursor.reply, Cursor.found, Cursor.move, hs, hc] using h
      | cons position positions => simp [hs, hc] at hsaved
    | cons copy copies =>
      cases hc : c.saved with
      | nil => simp [hs, hc] at hsaved
      | cons position positions =>
        rw [hs, hc, List.map_cons, List.map_cons, List.cons.injEq] at hsaved
        obtain ⟨hcopy, hcopies⟩ := hsaved
        have hlen : copies.length = positions.length := by
          simpa using congrArg List.length hcopies
        simp only [Session.respond, Cursor.reply, Cursor.found, Cursor.move, hs, hc,
          List.length_cons, Nat.add_sub_cancel, hlen]
        exact ⟨trivial, trivial, hcopy, hcopies⟩

/-- A sequence of requests leaves the session standing where it leaves the cursor. -/
theorem after (h : s.StandsAt all c) (requests : List Request) :
    (s.after requests).StandsAt all (c.after all requests) := by
  induction requests generalizing s c with
  | nil => exact h
  | cons request requests ih => exact ih (h.respond request).2.2

end StandsAt

end Session

/-- The query that options describe searches the target for the pattern, up to its last node. -/
theorem SearchOptions.query_spec (o : SearchOptions) {pattern : Graph} (target : Graph)
    (hne : pattern.nodes ≠ []) :
    ∃ q, o.query pattern target = .ok q ∧ q.pattern = pattern ∧ q.target = target ∧
      q.injective = o.injective ∧ q.stop ≤ q.target.nodes.length := by
  have hof : Query.of pattern target o.injective =
      .ok { pattern, target, injective := o.injective } := by
    rw [Query.of, if_neg (by simpa using hne)]
  rw [query, hof]
  cases o.roots with
  | none => exact ⟨_, rfl, rfl, rfl, rfl, Nat.le_refl _⟩
  | some range =>
    refine ⟨_, rfl, rfl, rfl, rfl, ?_⟩
    exact Query.stop_withRoots_le _ _

/-- There is a query for any options as long as the pattern has a node. -/
theorem SearchOptions.exists_query (o : SearchOptions) {pattern : Graph} (target : Graph)
    (hne : pattern.nodes ≠ []) : ∃ q, o.query pattern target = .ok q ∧ q.pattern = pattern := by
  obtain ⟨q, hq, hpattern, -⟩ := o.query_spec target hne
  exact ⟨q, hq, hpattern⟩

/-- A session over the search for a valid pattern with a node is a cursor into the list of all
matches, whatever the target, the injectivity and the range of the first image. After any sequence
of requests the next one is answered by the cursor's position, and it finds the matches that it
passes over there. A search that has nothing more to give stays so until a copy is restored. -/
theorem respond_after_eq {pattern : Graph} (target : Graph) (options : SearchOptions)
    (hvalid : pattern.validate = .ok ()) (hne : pattern.nodes ≠ []) :
    ∃ q all start, options.query pattern target = .ok q ∧ q.findAll = .ok all ∧
      Matches.start q = .ok start ∧
      (∀ requests request,
        ((Session.after ⟨start, []⟩ requests).respond request).reply =
          (Cursor.after all {} requests).reply all request ∧
        ((Session.after ⟨start, []⟩ requests).respond request).found =
          (Cursor.after all {} requests).found all request) ∧
      ∀ requests later, .restore ∉ later →
        ((Session.after ⟨start, []⟩ requests).respond .next).reply = .single none →
        ((Session.after ⟨start, []⟩ (requests ++ later)).respond .next).reply = .single none := by
  obtain ⟨q, hq, rfl⟩ := options.exists_query target hne
  have hends := (Graph.validate_eq_ok_iff.1 hvalid).ends_lt
  obtain ⟨start, hstart, hall⟩ := bind_eq_ok.1 (Query.findAll_eq hends)
  -- The list of all matches is what the search finds from its beginning, at position zero.
  have hstands : Session.StandsAt ⟨start, []⟩ start.toList {} := ⟨rfl, rfl⟩
  refine ⟨q, start.toList, start, hq, bind_eq_ok.2 ⟨start, hstart, rfl⟩, hstart, ?_, ?_⟩
  · intro requests request
    obtain ⟨hreply, hfound, -⟩ := (hstands.after requests).respond request
    exact ⟨hreply, hfound⟩
  · intro requests later hkeep hnone
    have hreply := ((hstands.after requests).respond .next).1
    have hreply' := ((hstands.after (requests ++ later)).respond .next).1
    rw [hnone] at hreply
    rw [hreply']
    have hend := List.getElem?_eq_none_iff.1 (Reply.single.inj hreply).symm
    have hend' := Cursor.position_after_of_end hend hkeep
    rw [Cursor.after, List.foldl_append]
    exact congrArg Reply.single (List.getElem?_eq_none hend')

/-- A search over a range that ends behind the target, for a pattern with a loop. -/
theorem respond_after_eq_loop :
    loopPattern.validate = .ok () ∧ loopPattern.nodes ≠ [] ∧
    ∃ q all start,
      SearchOptions.query { roots := some (0, 7) } loopPattern loopTarget = .ok q ∧
      q.findAll = .ok all ∧ Matches.start q = .ok start ∧
      (∀ requests request,
        ((Session.after ⟨start, []⟩ requests).respond request).reply =
          (Cursor.after all {} requests).reply all request ∧
        ((Session.after ⟨start, []⟩ requests).respond request).found =
          (Cursor.after all {} requests).found all request) ∧
      ∀ requests later, .restore ∉ later →
        ((Session.after ⟨start, []⟩ requests).respond .next).reply = .single none →
        ((Session.after ⟨start, []⟩ (requests ++ later)).respond .next).reply = .single none :=
  ⟨by decide, by decide, respond_after_eq loopTarget { roots := some (0, 7) } (by decide)
    (by decide)⟩

example : (do
    let start ← Matches.start (← Query.of loopPattern loopTarget false)
    let s := Session.after ⟨start, []⟩ [.next, .save, .nth 4, .next, .restore]
    return ((s.respond .count).reply, (s.respond .next).reply) : Except Fault (Reply × Reply)) =
    .ok (.count 1, .single (some ⟨[1, 1], [[1], [1]]⟩)) := by cbv

end DoublePushout
