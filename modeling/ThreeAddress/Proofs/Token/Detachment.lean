import ThreeAddress.Proofs.Token.Meeting

/-!
# Receiving from a channel that has been detached from

Behind a detach nothing is put into the slot any more, but what lies there is left: the next
receive gets it, and only those behind it get nothing (`Meeting.Reaches.heard_of_detached`). So a
token can be delivered although its send has been refused (`Meeting.delivered_after_detach`).
-/

namespace ThreeAddress

namespace Meeting

variable {Party : Type} [DecidableEq Party] {conducts : Party → Conduct}
  {meeting later : Meeting Party}

/-- A later meeting with what has been heard since: first what lay in the slot, then nothing. While
the token has not been taken it still lies there. -/
structure IsDrained (meeting : Meeting Party) (behind : List (Event Party)) (count : Nat)
    (later : Meeting Party) : Prop where
  detached : later.channel.detached = true
  events : later.events = meeting.events ++ behind
  heard : heard behind ++ later.channel.slot.toList.map some =
    meeting.channel.slot.toList.map some ++ List.replicate count none

/-- A call changes nothing of this. -/
theorem IsDrained.begin {behind : List (Event Party)} {count : Nat}
    (h : meeting.IsDrained behind count later) (party : Party) (call : Call) :
    meeting.IsDrained (behind ++ [.begins party call]) count (later.begin party call) := by
  obtain ⟨hdetached, hevents, hheard⟩ := h
  refine ⟨hdetached, by simp [hevents], ?_⟩
  simpa [Event.heard?] using hheard

/-- A turn takes what lies in the slot or finds nothing, and puts nothing there. -/
theorem IsDrained.take {behind : List (Event Party)} {count : Nat} {stage : Stage} {turn : Turn}
    (h : meeting.IsDrained behind count later) (party : Party)
    (hturn : later.channel.Turns stage turn) :
    ∃ count, meeting.IsDrained (behind ++ [turn.event party]) count (later.take party turn) := by
  obtain ⟨hdetached, hevents, hheard⟩ := h
  cases hturn with
  | expect _ _ _ hattached | full _ hattached | put _ hattached | settle hattached
  | linger hattached =>
    rw [hdetached] at hattached
    cases hattached
  | take _ hslot =>
    refine ⟨count, hdetached, by simp [hevents, Turn.event], ?_⟩
    rw [← hheard, hslot]
    simp [Turn.event, Event.heard?]
  | miss _ hslot _ =>
    refine ⟨count + 1, hdetached, by simp [hevents, Turn.event], ?_⟩
    rw [hslot, Option.toList_none, List.map_nil, List.append_nil] at hheard
    rw [heard_append, hheard, List.replicate_succ']
    simp [Turn.event, Event.heard?, hslot]
  | close | detach | onClosed | refuse | withdraw =>
    refine ⟨count, ?_, by simp [hevents, Turn.event], ?_⟩
    · first | exact hdetached | rfl
    · simpa [Turn.event, Event.heard?, Channel.close, Channel.detach] using hheard

/-- A send is refused only on a channel that somebody has detached from. -/
theorem Reaches.detached_of_refused (h : Reaches conducts {} meeting) {party : Party}
    {token : Token} (hrefused : .ends party (.sent token .refused) ∈ meeting.events) :
    meeting.channel.detached = true := by
  revert party token
  refine h.invariant (fun meeting => ∀ {party : Party} {token : Token},
    .ends party (.sent token .refused) ∈ meeting.events → meeting.channel.detached = true)
    nofun ?_ ?_
  · intro meeting party call ih _ _ other token hrefused
    exact ih (by simpa using hrefused)
  · intro meeting party stage turn ih _ hturn other token hrefused
    rw [events_take, List.mem_append, List.mem_singleton] at hrefused
    cases hturn with
    | detach => rfl
    | refuse _ hdetached | withdraw hdetached => exact hdetached
    | _ =>
      refine ih (hrefused.resolve_right ?_)
      simp [Turn.event]

/-- Once somebody has detached, or a send has been refused, receives get what lies in the slot at
that moment and nothing else: the first one takes it, if there is something, and all others end
without a token. This is so for any number of parties, whatever calls they make in whatever
order. -/
theorem Reaches.heard_of_detached (h : Reaches conducts {} meeting)
    (hended : ∃ party answer, .ends party answer ∈ meeting.events ∧
      (answer = .detached ∨ ∃ token, answer = .sent token .refused))
    (hlater : Reaches conducts meeting later) :
    ∃ behind count, later.events = meeting.events ++ behind ∧
      heard behind <+: meeting.channel.slot.toList.map some ++ List.replicate count none := by
  have hdetached : meeting.channel.detached = true := by
    obtain ⟨party, _, hmem, rfl | ⟨token, rfl⟩⟩ := hended
    · exact h.isFlagged.detached.2 ⟨party, hmem⟩
    · exact h.detached_of_refused hmem
  obtain ⟨behind, count, hdrained⟩ : ∃ behind count, meeting.IsDrained behind count later := by
    refine hlater.invariant (fun later => ∃ behind count,
      meeting.IsDrained behind count later) ⟨[], 0, hdetached, by simp, by simp [heard]⟩ ?_ ?_
    · rintro later party call ⟨behind, count, hdrained⟩ _ _
      exact ⟨_, count, hdrained.begin party call⟩
    · rintro later party stage turn ⟨behind, count, hdrained⟩ _ hturn
      exact ⟨_, hdrained.take party hturn⟩
  exact ⟨behind, count, hdrained.events, hdrained.heard ▸ List.prefix_append _ _⟩

/-- A side sends a token. The other one detaches and then receives, twice. -/
def leftover (token : Token) : Side → Conduct :=
  Conduct.sides (.following [.send token]) (.following [.detach, .receive, .receive])

/-- The token has been put into the slot when the other side detaches. Its send is refused, and then
it is received. -/
theorem leftover_reaches (token : Token) : ∃ meeting later : Meeting Side,
    Reaches (leftover token) {} meeting ∧ Reaches (leftover token) meeting later ∧
      meeting.channel.slot = some token ∧
      meeting.events = [.begins .producer (.send token), .waits .producer,
        .begins .receiver .detach, .ends .receiver .detached,
        .ends .producer (.sent token .refused)] ∧
      later.events = meeting.events ++
        [.begins .receiver .receive, .ends .receiver (.received (some token)),
          .begins .receiver .receive, .ends .receiver (.received none)] := by
  let opening : List Side := [.producer, .producer, .receiver, .receiver, .producer]
  have hopening : (run? (leftover token) opening {}).isSome = true := rfl
  obtain ⟨meeting, hmeeting⟩ := Option.isSome_iff_exists.1 hopening
  have hclosing : (run? (leftover token)
      [.receiver, .receiver, .receiver, .receiver] meeting).isSome = true := by
    cases hmeeting
    rfl
  obtain ⟨later, hlater⟩ := Option.isSome_iff_exists.1 hclosing
  refine ⟨meeting, later, Reaches.refl.run? hmeeting, Reaches.refl.run? hlater, ?_⟩
  cases hmeeting
  cases hlater
  exact ⟨rfl, rfl, rfl⟩

/-- A receive behind the detach and behind the refused send gets the token, and the next one gets
nothing. -/
theorem heard_of_detached_leftover :
    ∃ meeting later : Meeting Side, ∃ behind : List (Event Side), ∃ count : Nat,
      (∃ side answer, .ends side answer ∈ meeting.events ∧
        (answer = .detached ∨ ∃ token, answer = .sent token .refused)) ∧
      later.events = meeting.events ++ behind ∧
      heard behind <+: some ⟨.ident, "a", 1⟩ :: List.replicate count none ∧
      heard behind = [some ⟨.ident, "a", 1⟩, none] := by
  obtain ⟨meeting, later, hmeeting, hlater, hslot, hevents, hlast⟩ :=
    leftover_reaches ⟨.ident, "a", 1⟩
  have hended : ∃ side answer, .ends side answer ∈ meeting.events ∧
      (answer = .detached ∨ ∃ token, answer = .sent token .refused) :=
    ⟨.receiver, .detached, by simp [hevents], .inl rfl⟩
  obtain ⟨behind, count, hbehind, hheard⟩ := hmeeting.heard_of_detached hended hlater
  rw [hslot] at hheard
  refine ⟨meeting, later, behind, count, hended, hbehind, hheard, ?_⟩
  rw [hbehind] at hlast
  rw [List.append_cancel_left hlast]
  rfl

/-- A token is delivered that was not delivered before, behind a detach and behind the end of its
send, which has been refused. -/
theorem delivered_after_detach :
    ∃ (conducts : Side → Conduct) (meeting later : Meeting Side) (token : Token)
      (behind : List (Event Side)),
      Reaches conducts {} meeting ∧ Reaches conducts meeting later ∧
      later.events = meeting.events ++ behind ∧ .ends .receiver .detached ∈ meeting.events ∧
      .ends .producer (.sent token .refused) ∈ meeting.events ∧
      some token ∉ heard meeting.events ∧ some token ∈ heard behind := by
  obtain ⟨meeting, later, hmeeting, hlater, -, hevents, hlast⟩ :=
    leftover_reaches ⟨.ident, "a", 1⟩
  refine ⟨_, meeting, later, ⟨.ident, "a", 1⟩, _, hmeeting, hlater, hlast, ?_⟩
  rw [hevents]
  decide

end Meeting

end ThreeAddress
