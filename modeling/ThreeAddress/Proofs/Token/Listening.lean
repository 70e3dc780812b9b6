import ThreeAddress.Proofs.Token.Rendezvous

/-!
# A receiver that listens until it has enough

A producer sends tokens until one is refused and then closes; a receiver takes tokens until it has
enough of them and then detaches. In whatever order they take their turns, the receiver is never
told that there is no token (`Meeting.Reaches.heard_eq_take`), and nothing is sent on a channel that
has been closed (`Meeting.Reaches.closed_of_sending`). They cannot get stuck
(`Meeting.Reaches.progress`), and since each call shows a few events only they come to an end
(`Meeting.Reaches.length_events_le`).
-/

namespace ThreeAddress

/-- What a receive has ended with. -/
def Answer.heard? : Answer → Option (Option Token)
  | received token => some token
  | _ => none

/-- So many tokens are enough, and fewer are not. -/
structure Suffices (enough : List (Option Token) → Bool) (tokens : List Token) (count : Nat) :
    Prop where
  le : count ≤ tokens.length
  iff {length : Nat} : length ≤ tokens.length →
    (enough ((tokens.take length).map some) = true ↔ count ≤ length)

namespace Conduct

/-- Receives until what it has heard is enough, and then detaches. -/
def listening (enough : List (Option Token) → Bool) : Conduct := fun answers =>
  if .detached ∈ answers then none
  else if enough (answers.filterMap Answer.heard?) then some .detach
  else some .receive

/-- One side sends the tokens and closes, the other one listens until it has enough. -/
def delivery (tokens : List Token) (enough : List (Option Token) → Bool) : Side → Conduct :=
  sides (.sending true tokens) (.listening enough)

variable {enough : List (Option Token) → Bool} {tokens : List Token} {answers : List Answer}
  {call : Call}

/-- A receiver that has not detached receives, or detaches when it has enough. -/
theorem listening_cases (h : listening enough answers = some call) : .detached ∉ answers ∧
    (call = .receive ∧ enough (answers.filterMap Answer.heard?) = false ∨
      call = .detach ∧ enough (answers.filterMap Answer.heard?) = true) := by
  unfold listening at h
  split at h
  · cases h
  · next hdetached =>
    refine ⟨hdetached, ?_⟩
    split at h
    · next henough =>
      cases h
      exact .inr ⟨rfl, henough⟩
    · next henough =>
      cases h
      exact .inl ⟨rfl, by simpa using henough⟩

/-- It makes no other calls. -/
theorem listens_listening : (listening enough).Listens := by
  intro answers call hcall
  exact (listening_cases hcall).2.imp And.left And.left

/-- A receiver that makes no more calls has detached. -/
theorem detached_of_listening (h : listening enough answers = none) : .detached ∈ answers := by
  unfold listening at h
  split at h
  · next hdetached => exact hdetached
  · split at h <;> cases h

/-- A producer that makes no more calls has closed. -/
theorem closed_of_sending (h : sending true tokens answers = none) : .closed ∈ answers := by
  unfold sending at h
  split at h
  · split at h <;> cases h
  · split at h
    · cases h
    · next hnot =>
      by_contra hclosed
      exact hnot ⟨rfl, hclosed⟩

end Conduct

namespace Meeting

variable {tokens : List Token} {enough : List (Option Token) → Bool} {count : Nat}
  {meeting : Meeting Side}

/-! ## What the two sides have been answered -/

/-- The answers to a producer: none but to sends, one for each token at most, and to one close. -/
structure IsSent (tokens : List Token) (answers : List Answer) : Prop where
  closes : answers.count .closed ≤ 1
  length : answers.length ≤ tokens.length + answers.count .closed
  plain {answer : Answer} : answer ∈ answers → answer.heard? = none ∧ answer ≠ .detached

/-- The answers to a receiver: those to its receives, and one to a detach when they are enough. -/
structure IsHeard (enough : List (Option Token) → Bool) (answers : List Answer) : Prop where
  detaches : answers.count .detached ≤ 1
  length : answers.length = (answers.filterMap Answer.heard?).length + answers.count .detached
  enough : .detached ∈ answers → enough (answers.filterMap Answer.heard?) = true

/-- The answers to the producer. -/
theorem Reaches.isSent {receiver : Conduct}
    (h : Reaches (Conduct.sides (.sending true tokens) receiver) {} meeting) :
    IsSent tokens (meeting.answers .producer) := by
  refine h.answered .producer ⟨Nat.zero_le _, Nat.zero_le _, nofun⟩ ?_
  intro answers call answer ⟨hcloses, hlength, hplain⟩ hcall hallows
  rcases Conduct.sending_cases hcall with ⟨token, htaken, htoken, rfl⟩ | ⟨-, hclosed, rfl, -⟩
  · obtain ⟨how, rfl⟩ : ∃ how, answer = .sent token how := by
      cases answer with
      | sent found how => exact ⟨how, congrArg (Answer.sent · how) hallows⟩
      | _ => cases hallows
    have hlt := (List.getElem?_eq_some_iff.1 htoken).1
    refine ⟨by simpa using hcloses, ?_, ?_⟩
    · simp only [List.length_append, List.length_singleton, List.count_append]
      omega
    · intro answer hmem
      rcases List.mem_append.1 hmem with hmem | hmem
      · exact hplain hmem
      · rw [List.mem_singleton.1 hmem]
        exact ⟨rfl, nofun⟩
  · obtain rfl : answer = .closed := by
      cases answer with
      | closed => rfl
      | _ => cases hallows
    rw [List.count_eq_zero_of_not_mem hclosed] at hlength
    refine ⟨by simp [List.count_eq_zero_of_not_mem hclosed], by simpa using by omega, ?_⟩
    intro answer hmem
    rcases List.mem_append.1 hmem with hmem | hmem
    · exact hplain hmem
    · rw [List.mem_singleton.1 hmem]
      exact ⟨rfl, nofun⟩

/-- The answers to the receiver. -/
theorem Reaches.isHeard {producer : Conduct}
    (h : Reaches (Conduct.sides producer (.listening enough)) {} meeting) :
    IsHeard enough (meeting.answers .receiver) := by
  refine h.answered .receiver ⟨Nat.zero_le _, rfl, nofun⟩ ?_
  intro answers call answer ⟨hdetaches, hlength, henough⟩ hcall hallows
  obtain ⟨hdetached, ⟨rfl, -⟩ | ⟨rfl, hnow⟩⟩ := Conduct.listening_cases hcall
  · obtain ⟨token, rfl⟩ : ∃ token, answer = .received token := by
      cases answer with
      | received token => exact ⟨token, rfl⟩
      | _ => cases hallows
    refine ⟨by simpa using hdetaches, ?_, ?_⟩
    · simp [List.count_append, Answer.heard?, hlength]
      omega
    · intro hmem
      exact absurd hmem (by simpa using hdetached)
  · obtain rfl : answer = .detached := by
      cases answer with
      | detached => rfl
      | _ => cases hallows
    have hsame : (answers ++ [Answer.detached]).filterMap Answer.heard? =
        answers.filterMap Answer.heard? := by
      rw [List.filterMap_append]
      exact List.append_nil _
    refine ⟨by simp [List.count_eq_zero_of_not_mem hdetached], ?_, fun _ => ?_⟩
    · rw [hsame, List.length_append, List.count_append, hlength, Nat.add_assoc]
      rfl
    · rw [hsame]
      exact hnow

/-- What has been heard has been heard by the receiver. -/
theorem heard_eq_filterMap
    (h : ∀ answer, answer ∈ meeting.answers .producer → answer.heard? = none) :
    heard meeting.events = (meeting.answers .receiver).filterMap Answer.heard? := by
  rw [heard, answers, List.filterMap_filterMap]
  refine List.filterMap_congr fun event hmem => ?_
  cases event with
  | begins | waits => rfl
  | ends side answer =>
    cases side with
    | receiver => cases answer <;> rfl
    | producer =>
      have hnone := h answer (mem_answers.2 hmem)
      cases answer with
      | received => cases hnone
      | _ => rfl

/-! ## What is received -/

section
variable (hsuffices : Suffices enough tokens count)
  (h : Reaches (Conduct.delivery tokens enough) {} meeting)
include h

/-- The producer is in one of the phases. -/
theorem Reaches.delivery_phase : Phase tokens meeting (meeting.activity .producer) :=
  h.phase Conduct.listens_listening

/-- The receiver has heard what has been heard. -/
theorem Reaches.heard_eq :
    heard meeting.events = (meeting.answers .receiver).filterMap Answer.heard? :=
  heard_eq_filterMap fun _ hmem => (h.isSent.plain hmem).1

/-- Nobody but the receiver detaches. -/
theorem Reaches.detached_mem (hdetached : meeting.channel.detached = true) :
    .detached ∈ meeting.answers .receiver := by
  obtain ⟨side, hmem⟩ := h.isFlagged.detached.1 hdetached
  cases side with
  | receiver => exact mem_answers.2 hmem
  | producer => exact absurd rfl (h.isSent.plain (mem_answers.2 hmem)).2

/-- As long as the receiver has not detached, the channel is closed only when it has received all
tokens. -/
theorem Reaches.length_le_of_closed (hclosed : meeting.channel.closed = true)
    (hdetached : .detached ∉ meeting.answers .receiver) :
    tokens.length ≤ (received meeting.events).length := by
  have hphase := h.delivery_phase
  generalize meeting.activity .producer = activity at hphase
  cases hphase with
  | ready hlive | calling hlive | offered _ hlive =>
    rw [hlive.closed] at hclosed
    cases hclosed
  | ended _ _ hsettled _ hover =>
    exact Nat.le_trans (hover.resolve_left fun hflag => hdetached (h.detached_mem hflag))
      hsettled.length_le

/-- What has been received is at the front of the tokens. -/
theorem Reaches.received_prefix : received meeting.events <+: tokens := by
  obtain ⟨hhanded, -, rest, hrest, -⟩ := h.delivery_phase.ahead
  exact (hrest ▸ List.prefix_append _ _ : received meeting.events <+: _).trans hhanded

end

/-- Whoever has never been told that there is no token has heard what it has received. -/
theorem heard_eq_map (h : none ∉ heard meeting.events) :
    heard meeting.events = (received meeting.events).map some := by
  rw [received]
  generalize heard meeting.events = heard at h
  induction heard with
  | nil => rfl
  | cons token heard ih =>
    cases token with
    | none => exact absurd (.head _) h
    | some token =>
      rw [List.reduceOption_cons_of_some, List.map_cons,
        ← ih fun hmem => h (List.mem_cons_of_mem _ hmem)]

/-- What has been heard are tokens from the front. -/
theorem heard_eq_take_of (hreceived : received meeting.events <+: tokens)
    (h : none ∉ heard meeting.events) : heard meeting.events =
      (tokens.take (heard meeting.events).length).map some := by
  have hall := heard_eq_map h
  have hlength : (heard meeting.events).length = (received meeting.events).length := by
    rw [hall, List.length_map]
  rw [hlength, ← List.prefix_iff_eq_take.1 hreceived]
  exact hall

/-- The receiver is never told that there is no token. -/
theorem Reaches.none_not_mem (hsuffices : Suffices enough tokens count)
    (h : Reaches (Conduct.delivery tokens enough) {} meeting) : none ∉ heard meeting.events := by
  induction h with
  | refl => exact List.not_mem_nil
  | @step meeting next side h hstep ih =>
    rcases step?_cases hstep with ⟨call, -, -, rfl⟩ | ⟨stage, hawake, rfl⟩
    · simpa [Event.heard?] using ih
    have hstage : (meeting.activity side).stage? = some stage := by
      rw [hawake]
      rfl
    have hcall := h.conducted side hstage
    have hturn := Channel.turns_turn meeting.channel stage
    generalize meeting.channel.turn stage = turn at hturn
    cases hturn with
    | miss hreceives _ hover =>
      have hreceive : stage.call = .receive := by
        rcases hreceives with rfl | rfl <;> rfl
      rw [hreceive] at hcall
      cases side with
      | producer =>
        rcases Conduct.sending_cases hcall with ⟨_, -, -, hsend⟩ | ⟨-, -, hsend, -⟩ <;> cases hsend
      | receiver =>
        -- The receiver has not had enough, so there are tokens that it has not received.
        obtain ⟨hdetached, hreceive⟩ := Conduct.listening_cases hcall
        have hmore := (hreceive.resolve_right fun hdetach => by cases hdetach.1).2
        have hclosed := hover.resolve_right fun hflag => hdetached (h.detached_mem hflag)
        have htokens := h.length_le_of_closed hclosed hdetached
        have hlength := h.received_prefix.length_le
        rw [← h.heard_eq, heard_eq_map ih,
          List.prefix_iff_eq_take.1 h.received_prefix] at hmore
        rw [(hsuffices.iff hlength).2 (Nat.le_trans hsuffices.le htokens)] at hmore
        cases hmore
    | _ => simpa [Turn.event, Event.heard?] using ih

/-- What has been heard are tokens from the front, and nothing else. -/
theorem Reaches.heard_eq_take (hsuffices : Suffices enough tokens count)
    (h : Reaches (Conduct.delivery tokens enough) {} meeting) : heard meeting.events =
      (tokens.take (heard meeting.events).length).map some :=
  heard_eq_take_of h.received_prefix (h.none_not_mem hsuffices)

/-! ## What is sent -/

/-- While a send is under way the channel is open. -/
theorem Reaches.closed_of_sending (h : Reaches (Conduct.delivery tokens enough) {} meeting)
    {side : Side} {stage : Stage} {token : Token}
    (hstage : (meeting.activity side).stage? = some stage) (hcall : stage.call = .send token) :
    meeting.channel.closed = false := by
  cases side with
  | receiver =>
    have hconduct := h.conducted .receiver hstage
    rw [hcall] at hconduct
    rcases Conduct.listens_listening _ _ hconduct with hcall | hcall <;> cases hcall
  | producer =>
    have hphase := h.delivery_phase
    generalize meeting.activity .producer = activity at hphase hstage
    cases hphase with
    | ready => cases hstage
    | calling hlive | offered _ hlive => exact hlive.closed
    | ended hactivity =>
      rcases hactivity with ⟨rfl, -⟩ | rfl <;> cases hstage
      cases hcall

/-! ## No side waits for ever -/

/-- The channel, when the producer sleeps. -/
theorem Reaches.full_of_asleep (h : Reaches (Conduct.delivery tokens enough) {} meeting)
    {stage : Stage} (hasleep : meeting.activity .producer = .asleep stage) :
    meeting.channel.detached = false ∧ meeting.channel.slot.isSome = true := by
  have hphase := h.delivery_phase
  have hturn := h.turns_of_asleep hasleep
  rw [hasleep] at hphase
  cases hphase with
  | ended hactivity => rcases hactivity with ⟨h, -⟩ | h <;> cases h
  | offered hstage =>
    cases hstage
    rcases hturn with ⟨hreceives, -⟩ | ⟨hfull, hdetached, -⟩
    · rcases hreceives with hstage | hstage <;> cases hstage
    · exact ⟨hdetached, hfull⟩

/-- The channel, when the receiver sleeps. -/
theorem Reaches.empty_of_asleep (h : Reaches (Conduct.delivery tokens enough) {} meeting)
    {stage : Stage} (hasleep : meeting.activity .receiver = .asleep stage) :
    meeting.channel.slot = none ∧ meeting.channel.closed = false := by
  have hcall : stage.call = .receive ∨ stage.call = .detach :=
    Conduct.listens_listening _ _ (h.conducted .receiver (by rw [hasleep]; rfl))
  rcases h.turns_of_asleep hasleep with ⟨-, hslot, hclosed⟩ | ⟨-, -, token, hsend⟩
  · exact ⟨hslot, hclosed⟩
  · rw [hsend] at hcall
    rcases hcall with hcall | hcall <;> cases hcall

/-- The two sides are finished, or one of them can take a step. -/
theorem Reaches.progress (h : Reaches (Conduct.delivery tokens enough) {} meeting) :
    meeting.IsFinished (Conduct.delivery tokens enough) ∨
      ∃ side next, meeting.step? (Conduct.delivery tokens enough) side = some next := by
  cases hproducer : meeting.step? (Conduct.delivery tokens enough) .producer with
  | some next => exact .inr ⟨_, next, hproducer⟩
  | none =>
  cases hreceiver : meeting.step? (Conduct.delivery tokens enough) .receiver with
  | some next => exact .inr ⟨_, next, hreceiver⟩
  | none =>
  rcases step?_none hproducer with hproducer | ⟨_, hsending⟩ <;>
    rcases step?_none hreceiver with hreceiver | ⟨_, hexpecting⟩
  · refine .inl fun side => ?_
    cases side
    · exact hproducer
    · exact hreceiver
  · -- The receiver waits for a token, but the producer has closed.
    have hclosed := h.isFlagged.closed.2
      ⟨.producer, mem_answers.1 (Conduct.closed_of_sending hproducer.2)⟩
    rw [(h.empty_of_asleep hexpecting).2] at hclosed
    cases hclosed
  · -- The producer waits for its token to be taken, but the receiver has detached.
    have hdetached := h.isFlagged.detached.2
      ⟨.receiver, mem_answers.1 (Conduct.detached_of_listening hreceiver.2)⟩
    rw [(h.full_of_asleep hsending).1] at hdetached
    cases hdetached
  · -- Both wait, the one for a free slot and the other for a token in it.
    have hslot := (h.full_of_asleep hsending).2
    rw [(h.empty_of_asleep hexpecting).1] at hslot
    cases hslot

/-- When both sides are finished, the channel has been closed once, and what has been heard is
enough. -/
theorem Reaches.of_isFinished (h : Reaches (Conduct.delivery tokens enough) {} meeting)
    (hfinished : meeting.IsFinished (Conduct.delivery tokens enough)) :
    (meeting.answers .producer).count .closed = 1 ∧ enough (heard meeting.events) = true := by
  constructor
  · have hclosed := Conduct.closed_of_sending (hfinished .producer).2
    exact Nat.le_antisymm h.isSent.closes (List.count_pos_iff.2 hclosed)
  · rw [h.heard_eq]
    exact h.isHeard.enough (Conduct.detached_of_listening (hfinished .receiver).2)

end Meeting

/-! ## How much can happen -/

/-- What a call has cost when its party has the lock or could have it: one event for its beginning,
and one more for a token that has been put into the slot. -/
def Stage.cost : Stage → Nat
  | offered _ => 2
  | _ => 1

namespace Activity

/-- What the call of a party has cost so far. A wait costs one event, and whoever wakes a party pays
for its wait. -/
def cost : Activity → Nat
  | idle => 0
  | awake stage => stage.cost
  | asleep stage => stage.cost + 1

/-- No call costs more than three events. -/
theorem cost_le (activity : Activity) : activity.cost ≤ 3 := by
  have hstage (stage : Stage) : stage.cost ≤ 2 := by
    unfold Stage.cost
    split <;> decide
  cases activity with
  | idle => exact Nat.zero_le _
  | awake stage => exact Nat.le_succ_of_le (hstage stage)
  | asleep stage => exact Nat.succ_le_succ (hstage stage)

/-- To wake a party costs one event. -/
theorem cost_wake (activity : Activity) : activity.cost ≤ activity.wake.cost + 1 := by
  cases activity with
  | asleep stage => exact Nat.le_refl _
  | _ => exact Nat.le_succ _

end Activity

/-- What a call has cost that has ended, at most. -/
def Release.cost : Release → Nat
  | ends _ => 3
  | waits _ => 0

/-- A turn pays for its event and for a party that it wakes: its call has ended, or costs more than
before. -/
theorem Channel.Turns.cost_le {channel : Channel} {stage : Stage} {turn : Turn}
    (h : channel.Turns stage turn) :
    stage.cost + 1 + turn.wakes.toNat ≤ turn.release.cost + turn.activity.cost := by
  cases h with
  | take hstage | miss hstage | expect hstage | refuse hstage | full hstage | put hstage =>
    rcases hstage with rfl | rfl <;> simp [Stage.cost, Release.cost, Turn.activity, Activity.cost]
  | _ => simp [Stage.cost, Release.cost, Turn.activity, Activity.cost]

/-- The side across the channel. -/
def Side.other : Side → Side
  | producer => receiver
  | receiver => producer

theorem Side.other_ne (side : Side) : side.other ≠ side := by
  cases side <;> nofun

namespace Meeting

variable {tokens : List Token} {enough : List (Option Token) → Bool} {count : Nat}
  {meeting : Meeting Side}

/-- What the calls of a side have cost so far. -/
def cost (meeting : Meeting Side) (side : Side) : Nat :=
  3 * (meeting.answers side).length + (meeting.activity side).cost

/-- The two sides, the one given first. -/
theorem cost_sides (meeting : Meeting Side) (side : Side) :
    meeting.cost .producer + meeting.cost .receiver =
      meeting.cost side + meeting.cost side.other := by
  cases side
  · rfl
  · exact Nat.add_comm _ _

/-- What has happened has been paid for by the calls of the two sides. -/
theorem Reaches.length_events_le_cost {conducts : Side → Conduct}
    (h : Reaches conducts {} meeting) :
    meeting.events.length ≤ meeting.cost .producer + meeting.cost .receiver := by
  refine h.invariant
    (fun meeting => meeting.events.length ≤ meeting.cost .producer + meeting.cost .receiver)
    (Nat.zero_le _) ?_ ?_
  · intro meeting side call ih hidle _
    rw [cost_sides _ side] at ih ⊢
    have hown : (meeting.begin side call).cost side = meeting.cost side + 1 := by
      rw [cost, cost, answers_begin, activity_begin_self, hidle]
      rfl
    have hother : (meeting.begin side call).cost side.other = meeting.cost side.other := by
      rw [cost, cost, answers_begin, activity_begin_of_ne side.other_ne]
    rw [hown, hother, events_begin, List.length_append, List.length_singleton]
    omega
  · intro meeting side stage turn ih hawake hturn
    rw [cost_sides _ side] at ih ⊢
    have hown : meeting.cost side + 1 + turn.wakes.toNat ≤ (meeting.take side turn).cost side := by
      have hturn := hturn.cost_le
      rw [cost, cost, activity_take_self, hawake, Activity.cost]
      cases hrelease : turn.release with
      | ends =>
        rw [hrelease, Release.cost] at hturn
        rw [answers_take_of_ends hrelease, List.length_append, List.length_singleton]
        omega
      | waits =>
        rw [hrelease, Release.cost] at hturn
        rw [answers_take_of_waits hrelease]
        omega
    have hother : meeting.cost side.other ≤
        (meeting.take side turn).cost side.other + turn.wakes.toNat := by
      rw [cost, cost, answers_take_of_ne side.other_ne, activity_take_of_ne side.other_ne]
      cases turn.wakes with
      | true =>
        have hwake := (meeting.activity side.other).cost_wake
        rw [if_pos rfl, Bool.toNat_true]
        omega
      | false => exact Nat.le_refl _
    rw [events_take, List.length_append, List.length_singleton]
    omega

/-- A side that is not in a call has had its answers, and one that is in a call has yet to have
one. -/
theorem cost_le_of {side : Side} {most : Nat}
    (hall : (meeting.answers side).length ≤ most + 1)
    (hcall : ∀ stage, (meeting.activity side).stage? = some stage →
      (meeting.answers side).length ≤ most) : meeting.cost side ≤ 3 * (most + 1) := by
  rw [cost]
  have hcost := (meeting.activity side).cost_le
  cases hactivity : meeting.activity side with
  | idle =>
    rw [Activity.cost]
    omega
  | awake stage | asleep stage =>
    have := hcall stage (by rw [hactivity]; rfl)
    rw [hactivity] at hcost
    omega

/-- Whatever order the two sides take their turns in, not more than this happens: a delivery comes
to an end. -/
theorem Reaches.length_events_le (hsuffices : Suffices enough tokens count)
    (h : Reaches (Conduct.delivery tokens enough) {} meeting) :
    meeting.events.length ≤ 6 * (tokens.length + 1) := by
  have hproducer : meeting.cost .producer ≤ 3 * (tokens.length + 1) := by
    obtain ⟨hcloses, hlength, -⟩ := h.isSent
    refine cost_le_of (by omega) fun stage hstage => ?_
    rcases Conduct.sending_cases (h.conducted .producer hstage) with
      ⟨token, -, htoken, -⟩ | ⟨-, hclosed, -⟩
    · exact Nat.le_of_lt (List.getElem?_eq_some_iff.1 htoken).1
    · rwa [List.count_eq_zero_of_not_mem hclosed] at hlength
  have hreceiver : meeting.cost .receiver ≤ 3 * (tokens.length + 1) := by
    obtain ⟨hdetaches, hlength, -⟩ := h.isHeard
    have hheard : (heard meeting.events).length ≤ tokens.length := by
      rw [heard_eq_map (h.none_not_mem hsuffices), List.length_map]
      exact h.received_prefix.length_le
    rw [← h.heard_eq] at hlength
    refine cost_le_of (by omega) fun stage hstage => ?_
    have hdetached := (Conduct.listening_cases (h.conducted .receiver hstage)).1
    rw [List.count_eq_zero_of_not_mem hdetached] at hlength
    omega
  have hcost := h.length_events_le_cost
  omega

end Meeting

end ThreeAddress
