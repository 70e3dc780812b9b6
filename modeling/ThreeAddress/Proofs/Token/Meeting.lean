import Mathlib.Logic.Function.Basic
import ThreeAddress.Token.Channel

/-!
# Parties on a channel

What happens when several parties make calls on one channel at the same time. A party has the lock
of the channel for a turn: it goes on with its call until the call ends or it has to wait
(`Channel.turn`). A party that waits gives the lock back and sleeps. Whoever changes the channel
wakes all that sleep, and a party that has been woken looks at the channel once more before it goes
on. Turns come in any order (`Meeting.step?`); which calls a party makes is up to its conduct, which
knows how the calls before have ended.

Nobody sleeps through what it waits for (`Meeting.Reaches.isWaiting`): for every party that is
asleep the channel is such that it would have to wait again.
-/

namespace ThreeAddress

/-! ## Turns -/

/-- What a party asks of a channel. -/
inductive Call where
  | send (token : Token)
  | receive
  | close
  | detach
  deriving DecidableEq, Repr

/-- How a call ends. -/
inductive Answer where
  | sent (token : Token) (how : Sent)
  | received (token : Option Token)
  | closed
  | detached
  deriving DecidableEq, Repr

/-- Where in a call a party takes the lock: at its beginning, or behind a wait. -/
inductive Stage where
  | entry (call : Call)
  /-- A send has waited for a free slot. -/
  | offering (token : Token)
  /-- A send has waited for its token to be taken. -/
  | offered (token : Token)
  /-- A receive has waited for a token. -/
  | expecting
  deriving DecidableEq, Repr

/-- The answers that a call can end with. -/
def Call.Allows : Call → Answer → Prop
  | send token, .sent found _ => found = token
  | receive, .received _ | close, .closed | detach, .detached => True
  | _, _ => False

/-- The call that a stage belongs to. -/
def Stage.call : Stage → Call
  | entry call => call
  | offering token | offered token => .send token
  | expecting => .receive

/-- Why a party gives the lock back: its call has ended, or has to wait. -/
inductive Release where
  | ends (answer : Answer)
  | waits (stage : Stage)
  deriving DecidableEq, Repr

/-- What a party does while it has the lock. -/
structure Turn where
  /-- The channel as the party leaves it. -/
  channel : Channel
  /-- Whether it wakes the parties that sleep. -/
  wakes : Bool
  release : Release
  deriving DecidableEq, Repr

namespace Channel

/-- The first half of a send behind the check that the channel is not closed, which is made once. -/
def put? (channel : Channel) (token : Token) : Option (Option Sent × Channel) :=
  if channel.detached then some (some .refused, channel)
  else if channel.slot.isSome then none
  else some (none, { channel with slot := some token })

/-- The first half of a send, with the check. -/
theorem offer?_eq (channel : Channel) (token : Token) : channel.offer? token =
    if channel.closed then some (some .onClosed, channel) else channel.put? token := rfl

/-- What follows the first half of a send. Behind a token that has been put into the slot comes the
second half, which has to wait. -/
def putTurn (channel : Channel) (token : Token) : Option (Option Sent × Channel) → Turn
  | some (some how, after) => ⟨after, false, .ends (.sent token how)⟩
  | some (none, after) => ⟨after, true, .waits (.offered token)⟩
  | none => ⟨channel, false, .waits (.offering token)⟩

/-- What follows the attempt to receive. -/
def receiveTurn (channel : Channel) : Option (Option Token × Channel) → Turn
  | some (token, after) => ⟨after, token.isSome, .ends (.received token)⟩
  | none => ⟨channel, false, .waits .expecting⟩

/-- What follows the second half of a send. -/
def settleTurn (channel : Channel) (token : Token) : Option Sent → Turn
  | some how => ⟨channel, false, .ends (.sent token how)⟩
  | none => ⟨channel, false, .waits (.offered token)⟩

/-- What a party does that takes the lock at a stage. -/
def turn (channel : Channel) : Stage → Turn
  | .entry (.send token) => channel.putTurn token (channel.offer? token)
  | .offering token => channel.putTurn token (channel.put? token)
  | .offered token => channel.settleTurn token channel.settle?
  | .entry .receive | .expecting => channel.receiveTurn channel.receive?
  | .entry .close => ⟨channel.close, true, .ends .closed⟩
  | .entry .detach => ⟨channel.detach, true, .ends .detached⟩

end Channel

/-- A receive, at its beginning or behind its wait. -/
def Stage.Receives (stage : Stage) : Prop := stage = .entry .receive ∨ stage = .expecting

/-- The first half of a send of the token, at its beginning or behind its wait. -/
def Stage.Offers (stage : Stage) (token : Token) : Prop :=
  stage = .entry (.send token) ∨ stage = .offering token

/-- All that a turn can be, with what holds of the channel then. -/
inductive Channel.Turns (channel : Channel) : Stage → Turn → Prop where
  | close : Turns channel (.entry .close) ⟨channel.close, true, .ends .closed⟩
  | detach : Turns channel (.entry .detach) ⟨channel.detach, true, .ends .detached⟩
  | take {stage : Stage} {token : Token} : stage.Receives → channel.slot = some token →
      Turns channel stage ⟨{ channel with slot := none }, true, .ends (.received (some token))⟩
  | miss {stage : Stage} : stage.Receives → channel.slot = none →
      channel.closed = true ∨ channel.detached = true →
      Turns channel stage ⟨channel, false, .ends (.received none)⟩
  | expect {stage : Stage} : stage.Receives → channel.slot = none → channel.closed = false →
      channel.detached = false → Turns channel stage ⟨channel, false, .waits .expecting⟩
  | onClosed {token : Token} : channel.closed = true →
      Turns channel (.entry (.send token)) ⟨channel, false, .ends (.sent token .onClosed)⟩
  | refuse {stage : Stage} {token : Token} : stage.Offers token → channel.detached = true →
      Turns channel stage ⟨channel, false, .ends (.sent token .refused)⟩
  | full {stage : Stage} {token : Token} : stage.Offers token → channel.detached = false →
      channel.slot.isSome = true → Turns channel stage ⟨channel, false, .waits (.offering token)⟩
  | put {stage : Stage} {token : Token} : stage.Offers token → channel.detached = false →
      channel.slot = none →
      Turns channel stage ⟨{ channel with slot := some token }, true, .waits (.offered token)⟩
  | withdraw {token : Token} : channel.detached = true →
      Turns channel (.offered token) ⟨channel, false, .ends (.sent token .refused)⟩
  | settle {token : Token} : channel.detached = false → channel.slot = none →
      Turns channel (.offered token) ⟨channel, false, .ends (.sent token .taken)⟩
  | linger {token : Token} : channel.detached = false → channel.slot.isSome = true →
      Turns channel (.offered token) ⟨channel, false, .waits (.offered token)⟩

namespace Channel

variable {channel : Channel} {stage : Stage}

/-- The first half of a send is one of these turns. -/
theorem turns_put {token : Token} (h : stage.Offers token) :
    channel.Turns stage (channel.putTurn token (channel.put? token)) := by
  unfold put?
  split
  · next hdetached => exact .refuse h hdetached
  · next hdetached =>
    rw [Bool.not_eq_true] at hdetached
    split
    · next hslot => exact .full h hdetached hslot
    · next hslot => exact .put h hdetached (by simpa using hslot)

/-- A receive is one of these turns. -/
theorem turns_receive (h : stage.Receives) :
    channel.Turns stage (channel.receiveTurn channel.receive?) := by
  unfold receive?
  cases hslot : channel.slot with
  | some token => exact .take h hslot
  | none =>
    cases hclosed : channel.closed with
    | true => exact .miss h hslot (.inl hclosed)
    | false =>
      cases hdetached : channel.detached with
      | true => exact .miss h hslot (.inr hdetached)
      | false => exact .expect h hslot hclosed hdetached

/-- The second half of a send is one of these turns. -/
theorem turns_settle (token : Token) :
    channel.Turns (.offered token) (channel.settleTurn token channel.settle?) := by
  unfold settle?
  cases hdetached : channel.detached with
  | true => exact .withdraw hdetached
  | false =>
    cases hslot : channel.slot with
    | some found => exact .linger hdetached (by rw [hslot]; rfl)
    | none => exact .settle hdetached hslot

/-- A turn is one of these. -/
theorem turns_turn (channel : Channel) (stage : Stage) :
    channel.Turns stage (channel.turn stage) := by
  cases stage with
  | entry call =>
    cases call with
    | send token =>
      rw [turn, offer?_eq]
      cases hclosed : channel.closed with
      | true => exact .onClosed hclosed
      | false => exact turns_put (.inl rfl)
    | receive => exact turns_receive (.inl rfl)
    | close => exact .close
    | detach => exact .detach
  | offering token => exact turns_put (.inr rfl)
  | offered token => exact turns_settle token
  | expecting => exact turns_receive (.inr rfl)

/-- A party that wakes nobody has changed nothing. -/
theorem Turns.channel_eq {turn : Turn} (h : channel.Turns stage turn)
    (hwakes : turn.wakes = false) : turn.channel = channel := by
  cases h <;> first | rfl | cases hwakes

/-- A call goes on as the call that it is. -/
theorem Turns.call_eq {turn : Turn} (h : channel.Turns stage turn) {next : Stage}
    (hnext : turn.release = .waits next) : next.call = stage.call := by
  cases h with
  | expect hstage => cases hnext; rcases hstage with rfl | rfl <;> rfl
  | full hstage | put hstage => cases hnext; rcases hstage with rfl | rfl <;> rfl
  | linger => cases hnext; rfl
  | _ => cases hnext

/-- A call ends with an answer to it. -/
theorem Turns.allows {turn : Turn} (h : channel.Turns stage turn) {answer : Answer}
    (hends : turn.release = .ends answer) : stage.call.Allows answer := by
  cases h with
  | close | detach | onClosed | withdraw | settle => cases hends; trivial
  | take hstage | miss hstage | refuse hstage =>
    cases hends
    rcases hstage with rfl | rfl <;> trivial
  | _ => cases hends

/-- A party that has to wait would have to wait again. -/
theorem Turns.waits_again {turn : Turn} (h : channel.Turns stage turn) {next : Stage}
    (hnext : turn.release = .waits next) :
    turn.channel.turn next = ⟨turn.channel, false, .waits next⟩ := by
  cases h with
  | expect _ hslot hclosed hdetached =>
    cases hnext
    simp [Channel.turn, receive?, hslot, hclosed, hdetached, receiveTurn]
  | full _ hdetached hslot =>
    cases hnext
    simp [Channel.turn, put?, hslot, hdetached, putTurn]
  | put _ hdetached _ =>
    cases hnext
    simp [Channel.turn, settle?, hdetached, settleTurn]
  | linger hdetached hslot =>
    cases hnext
    have hnone : channel.slot.isNone = false := by simpa using hslot
    simp [Channel.turn, settle?, hnone, hdetached, settleTurn]
  | _ => cases hnext

end Channel

/-! ## Meetings -/

/-- What a party is about: nothing, a call whose turn is to come, or a call in which it sleeps. -/
inductive Activity where
  | idle
  | awake (stage : Stage)
  | asleep (stage : Stage)
  deriving DecidableEq, Repr

namespace Activity

/-- A party that sleeps is woken. -/
def wake : Activity → Activity
  | asleep stage => awake stage
  | activity => activity

/-- The stage of the call that a party is in. -/
def stage? : Activity → Option Stage
  | idle => none
  | awake stage | asleep stage => some stage

/-- To be woken keeps a party in its call. -/
@[simp] theorem stage?_wake (activity : Activity) : activity.wake.stage? = activity.stage? := by
  cases activity <;> rfl

/-- Nobody sleeps who has been woken. -/
theorem wake_ne_asleep (activity : Activity) (stage : Stage) : activity.wake ≠ asleep stage := by
  cases activity <;> nofun

end Activity

/-- What a party is about after its turn. -/
def Turn.activity (turn : Turn) : Activity :=
  match turn.release with
  | .ends _ => .idle
  | .waits stage => .asleep stage

/-- The next call of a party, given how its calls have ended so far; none if it is finished. -/
abbrev Conduct := List Answer → Option Call

/-- Makes the calls one after the other, however they end. -/
def Conduct.following (calls : List Call) : Conduct := fun answers => calls[answers.length]?

/-- The two ends of a channel. -/
inductive Side where
  | producer
  | receiver
  deriving DecidableEq, Repr

/-- The two sides are not the same. -/
theorem Side.producer_ne : producer ≠ receiver := nofun

/-- What each side does. -/
def Conduct.sides (producer receiver : Conduct) : Side → Conduct
  | .producer => producer
  | .receiver => receiver

namespace Meeting

/-- What can be seen to happen: a party begins a call, goes to sleep in it, or ends it. -/
inductive Event (Party : Type) where
  | begins (party : Party) (call : Call)
  | waits (party : Party)
  | ends (party : Party) (answer : Answer)
  deriving DecidableEq, Repr

end Meeting

/-- What a party shows at the end of its turn. -/
def Turn.event {Party : Type} (turn : Turn) (party : Party) : Meeting.Event Party :=
  match turn.release with
  | .ends answer => .ends party answer
  | .waits _ => .waits party

/-- A channel, what each party is about, and what has happened so far. -/
structure Meeting (Party : Type) where
  channel : Channel := {}
  activity : Party → Activity := fun _ => .idle
  events : List (Meeting.Event Party) := []

namespace Meeting

variable {Party : Type}

/-- What a receive has ended with. -/
def Event.heard? : Event Party → Option (Option Token)
  | ends _ (.received token) => some token
  | _ => none

/-- What receives have ended with, the first one first. -/
def heard (events : List (Event Party)) : List (Option Token) := events.filterMap Event.heard?

/-- What is collected from one event. -/
@[simp] theorem filterMap_singleton {Value : Type} (collect : Event Party → Option Value)
    (event : Event Party) : [event].filterMap collect = (collect event).toList := by
  cases h : collect event <;> simp [h]

/-- What receives have ended with, and later ones. -/
@[simp] theorem heard_append (before behind : List (Event Party)) :
    heard (before ++ behind) = heard before ++ heard behind := List.filterMap_append

/-- What one receive has ended with, if it is one that has ended. -/
@[simp] theorem heard_singleton (event : Event Party) :
    heard [event] = event.heard?.toList := filterMap_singleton ..

variable [DecidableEq Party]

/-- How a call of the party has ended. -/
def Event.answer? (party : Party) : Event Party → Option Answer
  | ends other answer => if other = party then some answer else none
  | _ => none

/-- How the calls of a party have ended, the first one first. -/
def answers (meeting : Meeting Party) (party : Party) : List Answer :=
  meeting.events.filterMap (Event.answer? party)

/-- The answers of a party are those that its calls have ended with. -/
theorem mem_answers {meeting : Meeting Party} {party : Party} {answer : Answer} :
    answer ∈ meeting.answers party ↔ .ends party answer ∈ meeting.events := by
  rw [answers, List.mem_filterMap]
  constructor
  · rintro ⟨event, hmem, hevent⟩
    cases event with
    | ends other found =>
      obtain ⟨rfl, rfl⟩ : other = party ∧ found = answer := by
        simpa [Event.answer?] using hevent
      exact hmem
    | _ => cases hevent
  · intro hmem
    exact ⟨_, hmem, if_pos rfl⟩

/-- A party begins a call. -/
def begin (meeting : Meeting Party) (party : Party) (call : Call) : Meeting Party where
  channel := meeting.channel
  activity := Function.update meeting.activity party (.awake (.entry call))
  events := meeting.events ++ [.begins party call]

/-- A party takes its turn. -/
def take (meeting : Meeting Party) (party : Party) (turn : Turn) : Meeting Party where
  channel := turn.channel
  activity := Function.update
    (if turn.wakes then fun other => (meeting.activity other).wake else meeting.activity)
    party turn.activity
  events := meeting.events ++ [turn.event party]

/-- The next step of a party: a call, if it is idle, or its turn in the call that it is in; none if
it sleeps or is finished. -/
def step? (conducts : Party → Conduct) (meeting : Meeting Party) (party : Party) :
    Option (Meeting Party) :=
  match meeting.activity party with
  | .idle => (conducts party (meeting.answers party)).map (meeting.begin party)
  | .awake stage => some (meeting.take party (meeting.channel.turn stage))
  | .asleep _ => none

/-- One meeting comes after another, with steps of the parties in any order. -/
inductive Reaches (conducts : Party → Conduct) (first : Meeting Party) : Meeting Party → Prop where
  | refl : Reaches conducts first first
  | step {meeting next : Meeting Party} {party : Party} : Reaches conducts first meeting →
      meeting.step? conducts party = some next → Reaches conducts first next

/-- All parties are finished: none is in a call, and none makes another. -/
def IsFinished (conducts : Party → Conduct) (meeting : Meeting Party) : Prop :=
  ∀ party, meeting.activity party = .idle ∧ conducts party (meeting.answers party) = none

/-- The meeting after the steps of the parties in the given order, if each can take its step. -/
def run? (conducts : Party → Conduct) (schedule : List Party) (meeting : Meeting Party) :
    Option (Meeting Party) :=
  schedule.foldlM (step? conducts) meeting

variable {conducts : Party → Conduct} {first meeting next : Meeting Party} {party : Party}

/-- Every order in which the parties can take their steps leads to a later meeting. -/
theorem Reaches.run? (h : Reaches conducts first meeting) {schedule : List Party}
    (hrun : meeting.run? conducts schedule = some next) : Reaches conducts first next := by
  induction schedule generalizing meeting with
  | nil =>
    cases hrun
    exact h
  | cons party schedule ih =>
    rw [Meeting.run?, List.foldlM_cons] at hrun
    obtain ⟨between, hstep, hrest⟩ := Option.bind_eq_some_iff.1 hrun
    exact ih (h.step hstep) hrest

/-- A step is the beginning of a call or a turn. -/
theorem step?_cases (h : meeting.step? conducts party = some next) :
    (∃ call, meeting.activity party = .idle ∧
      conducts party (meeting.answers party) = some call ∧ next = meeting.begin party call) ∨
    ∃ stage, meeting.activity party = .awake stage ∧
      next = meeting.take party (meeting.channel.turn stage) := by
  unfold step? at h
  split at h
  · next hactivity =>
    obtain ⟨call, hcall, rfl⟩ := Option.map_eq_some_iff.1 h
    exact .inl ⟨call, hactivity, hcall, rfl⟩
  · next stage hactivity =>
    cases h
    exact .inr ⟨stage, hactivity, rfl⟩
  · cases h

/-- A party that cannot take a step is finished or sleeps. -/
theorem step?_none (h : meeting.step? conducts party = none) :
    (meeting.activity party = .idle ∧ conducts party (meeting.answers party) = none) ∨
      ∃ stage, meeting.activity party = .asleep stage := by
  unfold step? at h
  split at h
  · next hidle => exact .inl ⟨hidle, Option.map_eq_none_iff.1 h⟩
  · cases h
  · next stage hasleep => exact .inr ⟨stage, hasleep⟩

/-- What holds at first and is kept by every call and every turn holds of whatever comes after. -/
theorem Reaches.invariant (h : Reaches conducts first meeting) (holds : Meeting Party → Prop)
    (hfirst : holds first)
    (hbegin : ∀ (meeting : Meeting Party) (party : Party) (call : Call), holds meeting →
      meeting.activity party = .idle → conducts party (meeting.answers party) = some call →
      holds (meeting.begin party call))
    (htake : ∀ (meeting : Meeting Party) (party : Party) (stage : Stage) (turn : Turn),
      holds meeting → meeting.activity party = .awake stage → meeting.channel.Turns stage turn →
      holds (meeting.take party turn)) : holds meeting := by
  induction h with
  | refl => exact hfirst
  | step _ hstep ih =>
    rcases step?_cases hstep with ⟨call, hidle, hcall, rfl⟩ | ⟨stage, hawake, rfl⟩
    · exact hbegin _ _ _ ih hidle hcall
    · exact htake _ _ _ _ ih hawake (Channel.turns_turn _ _)

/-! ## What a step leaves alone -/

@[simp] theorem channel_begin (call : Call) :
    (meeting.begin party call).channel = meeting.channel := rfl

@[simp] theorem events_begin (call : Call) :
    (meeting.begin party call).events = meeting.events ++ [.begins party call] := rfl

@[simp] theorem channel_take (turn : Turn) : (meeting.take party turn).channel = turn.channel := rfl

@[simp] theorem events_take (turn : Turn) :
    (meeting.take party turn).events = meeting.events ++ [turn.event party] := rfl

/-- To begin a call ends none. -/
@[simp] theorem answers_begin (call : Call) (other : Party) :
    (meeting.begin party call).answers other = meeting.answers other := by
  simp [answers, Event.answer?]

/-- A turn may end a call of the party that takes it. -/
theorem answers_take (turn : Turn) (other : Party) : (meeting.take party turn).answers other =
    meeting.answers other ++ ((turn.event party).answer? other).toList := by
  simp [answers]

/-- The party that begins a call is in it. -/
@[simp] theorem activity_begin_self (call : Call) :
    (meeting.begin party call).activity party = .awake (.entry call) := Function.update_self ..

/-- The party that has had its turn is about what the turn leaves. -/
@[simp] theorem activity_take_self (turn : Turn) :
    (meeting.take party turn).activity party = turn.activity := Function.update_self ..

/-- A party that begins a call leaves the others alone. -/
theorem activity_begin_of_ne {other : Party} (h : other ≠ party) (call : Call) :
    (meeting.begin party call).activity other = meeting.activity other :=
  Function.update_of_ne h ..

/-- A party that takes its turn wakes the others or leaves them alone. -/
theorem activity_take_of_ne {other : Party} (h : other ≠ party) (turn : Turn) :
    (meeting.take party turn).activity other =
      if turn.wakes then (meeting.activity other).wake else meeting.activity other := by
  show Function.update _ party _ other = _
  rw [Function.update_of_ne h]
  split <;> rfl

/-- The stage of the others stays. -/
theorem stage?_take_of_ne {other : Party} (h : other ≠ party) (turn : Turn) :
    ((meeting.take party turn).activity other).stage? = (meeting.activity other).stage? := by
  rw [activity_take_of_ne h]
  split
  · exact Activity.stage?_wake _
  · rfl

/-! ## What holds of every meeting -/

/-- For every party that sleeps the channel is such that it has to wait. -/
def IsWaiting (meeting : Meeting Party) : Prop :=
  ∀ party stage, meeting.activity party = .asleep stage →
    meeting.channel.turn stage = ⟨meeting.channel, false, .waits stage⟩

/-- Nobody sleeps through what it waits for. -/
theorem Reaches.isWaiting (h : Reaches conducts {} meeting) : meeting.IsWaiting := by
  refine h.invariant IsWaiting nofun ?_ ?_
  · intro meeting party call hwaiting hidle _ other stage hasleep
    by_cases hother : other = party
    · subst hother
      rw [activity_begin_self] at hasleep
      cases hasleep
    · rw [activity_begin_of_ne hother] at hasleep
      exact hwaiting other stage hasleep
  · intro meeting party stage turn hwaiting _ hturn other next hasleep
    by_cases hother : other = party
    · subst hother
      rw [activity_take_self, Turn.activity] at hasleep
      cases hrelease : turn.release with
      | ends => rw [hrelease] at hasleep; cases hasleep
      | waits found =>
        rw [hrelease] at hasleep
        cases hasleep
        exact hturn.waits_again hrelease
    · rw [activity_take_of_ne hother] at hasleep
      cases hwakes : turn.wakes with
      | true =>
        rw [hwakes, if_pos rfl] at hasleep
        exact absurd hasleep (Activity.wake_ne_asleep _ _)
      | false =>
        rw [hwakes, if_neg nofun] at hasleep
        rw [channel_take, hturn.channel_eq hwakes]
        exact hwaiting other next hasleep

/-- A party that does not end a call has the same answers as before. -/
theorem answers_take_of_waits {turn : Turn} {stage : Stage} (h : turn.release = .waits stage)
    (other : Party) : (meeting.take party turn).answers other = meeting.answers other := by
  rw [answers_take, Turn.event, h]
  exact List.append_nil _

/-- The answers of the others stay. -/
theorem answers_take_of_ne {other : Party} (h : other ≠ party) (turn : Turn) :
    (meeting.take party turn).answers other = meeting.answers other := by
  rw [answers_take, Turn.event]
  cases turn.release with
  | waits => exact List.append_nil _
  | ends answer =>
    rw [Event.answer?, if_neg (Ne.symm h)]
    exact List.append_nil _

/-- A party that ends a call has one answer more. -/
theorem answers_take_of_ends {turn : Turn} {answer : Answer} (h : turn.release = .ends answer) :
    (meeting.take party turn).answers party = meeting.answers party ++ [answer] := by
  rw [answers_take, Turn.event, h, Event.answer?, if_pos rfl]
  rfl

/-- Whoever sleeps in a receive finds the slot empty, and whoever sleeps in a send finds it full,
while nobody has ended the exchange. -/
theorem Reaches.turns_of_asleep (h : Reaches conducts {} meeting) {stage : Stage}
    (hasleep : meeting.activity party = .asleep stage) :
    (stage.Receives ∧ meeting.channel.slot = none ∧ meeting.channel.closed = false) ∨
      (meeting.channel.slot.isSome = true ∧ meeting.channel.detached = false ∧
        ∃ token, stage.call = .send token) := by
  have hturn := Channel.turns_turn meeting.channel stage
  have hwait := h.isWaiting party stage hasleep
  generalize meeting.channel.turn stage = turn at hturn hwait
  have hwakes : turn.wakes = false := hwait ▸ rfl
  have hrelease : turn.release = .waits stage := hwait ▸ rfl
  cases hturn with
  | expect hreceives hslot hclosed => exact .inl ⟨hreceives, hslot, hclosed⟩
  | full hoffers hdetached hslot =>
    exact .inr ⟨hslot, hdetached, _, by rcases hoffers with rfl | rfl <;> rfl⟩
  | linger hdetached hslot => exact .inr ⟨hslot, hdetached, _, rfl⟩
  | put => cases hwakes
  | _ => cases hrelease

/-- A party is in the call that its conduct makes after the answers that it has had. -/
theorem Reaches.conducted (h : Reaches conducts {} meeting) (party : Party) {stage : Stage}
    (hstage : (meeting.activity party).stage? = some stage) :
    conducts party (meeting.answers party) = some stage.call := by
  revert party stage
  refine h.invariant (fun meeting => ∀ party {stage}, (meeting.activity party).stage? = some stage →
    conducts party (meeting.answers party) = some stage.call) nofun ?_ ?_
  · intro meeting party call ih _ hcall other stage hstage
    rw [answers_begin]
    by_cases hother : other = party
    · subst hother
      rw [activity_begin_self] at hstage
      cases hstage
      exact hcall
    · rw [activity_begin_of_ne hother] at hstage
      exact ih other hstage
  · intro meeting party stage turn ih hawake hturn other next hnext
    by_cases hother : other = party
    · subst hother
      rw [activity_take_self, Turn.activity] at hnext
      cases hrelease : turn.release with
      | ends => rw [hrelease] at hnext; cases hnext
      | waits found =>
        rw [hrelease] at hnext
        cases hnext
        rw [answers_take_of_waits hrelease, hturn.call_eq hrelease]
        exact ih other (by rw [hawake]; rfl)
    · rw [stage?_take_of_ne hother] at hnext
      rw [answers_take_of_ne hother]
      exact ih other hnext

/-- What holds of no answers, and still holds with the answer to the call that the conduct of a
party makes next, holds of the answers of the party. -/
theorem Reaches.answered (h : Reaches conducts {} meeting) (party : Party)
    {holds : List Answer → Prop} (hnil : holds [])
    (hanswer : ∀ answers call answer, holds answers → conducts party answers = some call →
      call.Allows answer → holds (answers ++ [answer])) : holds (meeting.answers party) := by
  induction h with
  | refl => exact hnil
  | @step meeting next other hreaches hstep ih =>
    rcases step?_cases hstep with ⟨call, -, -, rfl⟩ | ⟨stage, hawake, rfl⟩
    · rwa [answers_begin]
    by_cases hother : party = other
    · subst hother
      have hturn := Channel.turns_turn meeting.channel stage
      have hstage : (meeting.activity party).stage? = some stage := by rw [hawake]; rfl
      have hcall := hreaches.conducted party hstage
      cases hrelease : (meeting.channel.turn stage).release with
      | waits found => rwa [answers_take_of_waits hrelease]
      | ends answer =>
        rw [answers_take_of_ends hrelease]
        exact hanswer _ _ _ ih hcall (hturn.allows hrelease)
    · rwa [answers_take_of_ne hother]

/-- The flags of the channel tell whether somebody has closed it and whether somebody has detached
from it. -/
structure IsFlagged (meeting : Meeting Party) : Prop where
  closed : meeting.channel.closed = true ↔ ∃ party, .ends party .closed ∈ meeting.events
  detached : meeting.channel.detached = true ↔ ∃ party, .ends party .detached ∈ meeting.events

/-- The flags of the channel tell what has happened. -/
theorem Reaches.isFlagged (h : Reaches conducts {} meeting) : meeting.IsFlagged := by
  refine h.invariant IsFlagged (by constructor <;> simp) ?_ ?_
  · intro meeting party call hflags _ _
    constructor
    · simpa using hflags.closed
    · simpa using hflags.detached
  · intro meeting party stage turn hflags _ hturn
    obtain ⟨hclosed, hdetached⟩ := hflags
    constructor
    · cases hturn with
      | close => simp [Channel.close, Turn.event]
      | _ => simpa [Turn.event, Channel.detach] using hclosed
    · cases hturn with
      | detach => simp [Channel.detach, Turn.event]
      | _ => simpa [Turn.event, Channel.close] using hdetached

/-- A receive ends without a token only when the slot is empty and the channel is closed or
detached from. -/
theorem Reaches.missed (h : Reaches conducts {} meeting) {before : List (Event Party)}
    (hlast : meeting.events = before ++ [.ends party (.received none)]) :
    meeting.channel.slot = none ∧
      (meeting.channel.closed = true ∨ meeting.channel.detached = true) := by
  revert before party
  refine h.invariant (fun meeting => ∀ {party : Party} {before : List (Event Party)},
    meeting.events = before ++ [.ends party (.received none)] → meeting.channel.slot = none ∧
      (meeting.channel.closed = true ∨ meeting.channel.detached = true)) ?_ ?_ ?_
  · intro party before hlast
    simp at hlast
  · intro meeting party call _ _ _ other before hlast
    have := (List.append_inj' hlast rfl).2
    simp at this
  · intro meeting party stage turn _ _ hturn other before hlast
    have hevent := (List.append_inj' hlast rfl).2
    cases hturn with
    | miss _ hslot hflags => exact ⟨hslot, hflags⟩
    | _ => simp [Turn.event] at hevent

end Meeting

end ThreeAddress
