import Mathlib.Data.List.ReduceOption
import ThreeAddress.Proofs.Token.Meeting

/-!
# One producer and one receiver

A producer sends tokens as long as each is taken, and a receiver receives and detaches as it likes.
The producer is never more than one token ahead (`Meeting.Reaches.rendezvous`): in whatever order
the two take their turns, what has been received is what has been handed to sends, without the last
token at most, and a send that has succeeded is one whose token has been received.

What is known of the channel depends on what the producer is about (`Meeting.Phase`); every step of
either side leads from one phase to one of the others.
-/

namespace ThreeAddress

/-- The answer of a send whose token was taken. -/
def Answer.isTaken : Answer → Bool
  | sent _ .taken => true
  | _ => false

namespace Conduct

/-- Sends the tokens one after the other as long as each is taken, and then closes if this is its
part. -/
def sending (closes : Bool) (tokens : List Token) : Conduct := fun answers =>
  if answers.all Answer.isTaken then
    match tokens[answers.length]? with
    | some token => some (.send token)
    | none => if closes then some .close else none
  else if closes = true ∧ .closed ∉ answers then some .close else none

/-- Makes no other calls than to receive and to detach. -/
def Listens (conduct : Conduct) : Prop :=
  ∀ answers call, conduct answers = some call → call = .receive ∨ call = .detach

/-- A list of receives and detaches makes no other calls. -/
theorem listens_following {calls : List Call}
    (h : ∀ call ∈ calls, call = .receive ∨ call = .detach) : (following calls).Listens :=
  fun _ _ hcall => h _ (List.mem_of_getElem? hcall)

/-- A producer sends the next token, or closes when there is none or one was not taken. -/
theorem sending_cases {closes : Bool} {tokens : List Token} {answers : List Answer} {call : Call}
    (h : sending closes tokens answers = some call) :
    (∃ token, answers.all Answer.isTaken = true ∧ tokens[answers.length]? = some token ∧
      call = .send token) ∨
    closes = true ∧ .closed ∉ answers ∧ call = .close ∧
      (answers.all Answer.isTaken = true → tokens.length ≤ answers.length) := by
  unfold sending at h
  split at h
  · next htaken =>
    split at h
    · next token htoken =>
      cases h
      exact .inl ⟨token, htaken, htoken, rfl⟩
    · next hnone =>
      split at h
      · next hcloses =>
        cases h
        refine .inr ⟨hcloses, fun hclosed => ?_, rfl, fun _ => List.getElem?_eq_none_iff.1 hnone⟩
        have := List.all_eq_true.1 htaken _ hclosed
        cases this
      · cases h
  · next htaken =>
    split at h
    · next hcloses =>
      cases h
      exact .inr ⟨hcloses.1, hcloses.2, rfl, fun h => absurd h htaken⟩
    · cases h

end Conduct

namespace Meeting

section
variable {Party : Type}

/-- The token of a send that begins. -/
def Event.handed? : Event Party → Option Token
  | begins _ (.send token) => some token
  | _ => none

/-- The token of a send that has succeeded. -/
def Event.settled? : Event Party → Option Token
  | ends _ (.sent token .taken) => some token
  | _ => none

/-- The tokens that have been handed to sends. -/
def handed (events : List (Event Party)) : List Token := events.filterMap Event.handed?

/-- The tokens of the sends that have succeeded. -/
def settled (events : List (Event Party)) : List Token := events.filterMap Event.settled?

/-- The tokens that have been received. -/
def received (events : List (Event Party)) : List Token := (heard events).reduceOption

variable (before behind : List (Event Party)) (event : Event Party)

@[simp] theorem handed_append : handed (before ++ behind) = handed before ++ handed behind :=
  List.filterMap_append

@[simp] theorem settled_append : settled (before ++ behind) = settled before ++ settled behind :=
  List.filterMap_append

@[simp] theorem received_append :
    received (before ++ behind) = received before ++ received behind := by
  simp [received, List.reduceOption_append]

@[simp] theorem handed_singleton : handed [event] = event.handed?.toList :=
  filterMap_singleton ..

@[simp] theorem settled_singleton : settled [event] = event.settled?.toList :=
  filterMap_singleton ..

@[simp] theorem received_singleton : received [event] = event.heard?.join.toList := by
  rw [received, heard_singleton]
  rcases event.heard? with _ | _ | token <;> rfl

end

/-! ## What the producer is about -/

/-- Every send so far has succeeded, and the channel is open. -/
structure IsLive (tokens : List Token) (meeting : Meeting Side) : Prop where
  taken : (meeting.answers .producer).all Answer.isTaken = true
  closed : meeting.channel.closed = false
  settled : settled meeting.events = tokens.take (meeting.answers .producer).length

/-- What is known when the producer is about the activity. -/
inductive Phase (tokens : List Token) (meeting : Meeting Side) : Activity → Prop where
  /-- Everything that was handed over has been received. -/
  | ready : meeting.IsLive tokens → meeting.channel.slot = none →
      handed meeting.events = settled meeting.events →
      received meeting.events = settled meeting.events → Phase tokens meeting .idle
  /-- A send has begun, and the slot is free for its token. -/
  | calling {token : Token} : meeting.IsLive tokens →
      tokens[(meeting.answers .producer).length]? = some token → meeting.channel.slot = none →
      handed meeting.events = settled meeting.events ++ [token] →
      received meeting.events = settled meeting.events →
      Phase tokens meeting (.awake (.entry (.send token)))
  /-- The token of a send has been put into the slot. -/
  | offered {token : Token} {activity : Activity} : activity.stage? = some (.offered token) →
      meeting.IsLive tokens → tokens[(meeting.answers .producer).length]? = some token →
      handed meeting.events = settled meeting.events ++ [token] →
      received meeting.events ++ meeting.channel.slot.toList = handed meeting.events →
      Phase tokens meeting activity
  /-- There will be no more sends. -/
  | ended {activity : Activity} :
      activity = .idle ∧ (meeting.answers .producer).all Answer.isTaken = false ∨
        activity = .awake (.entry .close) →
      handed meeting.events <+: tokens → settled meeting.events <+: received meeting.events →
      (∃ rest, handed meeting.events = received meeting.events ++ rest ∧ rest.length ≤ 1 ∧
        meeting.channel.slot.toList <+: rest) →
      meeting.channel.detached = true ∨ tokens.length ≤ (settled meeting.events).length →
      Phase tokens meeting activity

variable {tokens : List Token} {meeting next : Meeting Side} {activity : Activity}

/-- The tokens handed over while all sends succeed are those in front. -/
theorem IsLive.handed_prefix (h : meeting.IsLive tokens) {token : Token}
    (htoken : tokens[(meeting.answers .producer).length]? = some token) :
    Meeting.settled meeting.events ++ [token] <+: tokens := by
  obtain ⟨hlt, rfl⟩ := List.getElem?_eq_some_iff.1 htoken
  rw [h.settled, List.take_append_getElem hlt]
  exact List.take_prefix _ _

/-- What a slot holds is one token at most. -/
theorem slot_length_le (channel : Channel) : channel.slot.toList.length ≤ 1 := by
  cases channel.slot <;> simp

/-- What has been settled has been received while one token more has been handed over. -/
theorem settled_prefix {token : Token}
    (hall : handed meeting.events = settled meeting.events ++ [token])
    (hgone : received meeting.events ++ meeting.channel.slot.toList = handed meeting.events) :
    settled meeting.events <+: received meeting.events := by
  have hslot := slot_length_le meeting.channel
  have hlength := congrArg List.length (hgone.trans hall)
  simp only [List.length_append, List.length_singleton] at hlength
  have hprefix : received meeting.events <+: settled meeting.events ++ [token] := by
    rw [← hall, ← hgone]
    exact List.prefix_append _ _
  exact List.prefix_of_prefix_length_le (List.prefix_append _ _) hprefix (by omega)

namespace Phase

/-- Whoever has been woken is about the same. -/
theorem wake (h : Phase tokens meeting activity) : Phase tokens meeting activity.wake := by
  cases h with
  | ready hlive hslot hhanded hreceived => exact .ready hlive hslot hhanded hreceived
  | calling hlive htoken hslot hhanded hreceived =>
    exact .calling hlive htoken hslot hhanded hreceived
  | offered hstage hlive htoken hhanded hreceived =>
    exact .offered (by rwa [Activity.stage?_wake]) hlive htoken hhanded hreceived
  | ended hactivity hhanded hsettled hrest hover =>
    rcases hactivity with ⟨rfl, hnot⟩ | rfl
    · exact .ended (.inl ⟨rfl, hnot⟩) hhanded hsettled hrest hover
    · exact .ended (.inr rfl) hhanded hsettled hrest hover

/-- A step that neither hands over, settles or receives a token nor closes the channel. -/
theorem congr (h : Phase tokens meeting activity)
    (hanswers : next.answers .producer = meeting.answers .producer)
    (hclosed : next.channel.closed = meeting.channel.closed)
    (hdetached : meeting.channel.detached = true → next.channel.detached = true)
    (hslot : next.channel.slot = meeting.channel.slot)
    (hhanded : handed next.events = handed meeting.events)
    (hsettled : settled next.events = settled meeting.events)
    (hreceived : received next.events = received meeting.events) :
    Phase tokens next activity := by
  have hlive (hlive : meeting.IsLive tokens) : next.IsLive tokens :=
    ⟨hanswers ▸ hlive.taken, hclosed ▸ hlive.closed, by rw [hsettled, hanswers, hlive.settled]⟩
  cases h with
  | ready h hnone hall hgone =>
    exact .ready (hlive h) (hslot ▸ hnone) (by rw [hhanded, hsettled, hall])
      (by rw [hreceived, hsettled, hgone])
  | calling h htoken hnone hall hgone =>
    exact .calling (hlive h) (hanswers ▸ htoken) (hslot ▸ hnone) (by rw [hhanded, hsettled, hall])
      (by rw [hreceived, hsettled, hgone])
  | offered hstage h htoken hall hgone =>
    exact .offered hstage (hlive h) (hanswers ▸ htoken) (by rw [hhanded, hsettled, hall])
      (by rw [hreceived, hhanded, hslot, hgone])
  | ended hactivity hall hgone hrest hover =>
    exact .ended (by rwa [hanswers]) (hhanded ▸ hall) (by rwa [hsettled, hreceived])
      (by rwa [hhanded, hreceived, hslot]) (hover.imp hdetached (hsettled ▸ id))

/-- The receiver begins a call. -/
theorem begin_receiver (h : Phase tokens meeting (meeting.activity .producer)) {call : Call}
    (hcall : call = .receive ∨ call = .detach) :
    Phase tokens (meeting.begin .receiver call)
      ((meeting.begin .receiver call).activity .producer) := by
  rw [activity_begin_of_ne Side.producer_ne]
  refine h.congr (by simp) rfl id rfl ?_ ?_ ?_ <;> rcases hcall with rfl | rfl <;>
    simp [Event.handed?, Event.settled?, Event.heard?]

/-- The receiver takes a turn of one of its calls. -/
theorem take_receiver (h : Phase tokens meeting (meeting.activity .producer)) {stage : Stage}
    {turn : Turn} (hcall : stage.call = .receive ∨ stage.call = .detach)
    (hturn : meeting.channel.Turns stage turn) :
    Phase tokens (meeting.take .receiver turn)
      ((meeting.take .receiver turn).activity .producer) := by
  have hphase : Phase tokens (meeting.take .receiver turn) (meeting.activity .producer) := by
    have hanswers : (meeting.take .receiver turn).answers .producer =
        meeting.answers .producer := answers_take_of_ne Side.producer_ne turn
    cases hturn with
    | detach =>
      refine h.congr hanswers rfl (fun _ => rfl) rfl ?_ ?_ ?_ <;>
        simp [Turn.event, Event.handed?, Event.settled?, Event.heard?]
    | miss | expect =>
      refine h.congr hanswers rfl id rfl ?_ ?_ ?_ <;>
        simp [Turn.event, Event.handed?, Event.settled?, Event.heard?]
    | @take stage token _ hslot =>
      have hlive (hlive : meeting.IsLive tokens) : (meeting.take .receiver
          ⟨{ meeting.channel with slot := none }, true,
            .ends (.received (some token))⟩).IsLive tokens :=
        ⟨hanswers ▸ hlive.taken, hlive.closed,
          by rw [hanswers, ← hlive.settled]; simp [Turn.event, Event.settled?]⟩
      generalize meeting.activity .producer = activity at h
      cases h with
      | ready _ hnone | calling _ _ hnone =>
        rw [hslot] at hnone
        cases hnone
      | offered hstage h htoken hall hgone =>
        rw [hslot] at hgone
        refine .offered hstage (hlive h) (hanswers ▸ htoken) ?_ ?_
        · simpa [Turn.event, Event.handed?, Event.settled?] using hall
        · simpa [Turn.event, Event.handed?, Event.heard?] using hgone
      | ended hactivity hall hgone hrest hover =>
        obtain ⟨rest, hrest, hlength, hfirst⟩ := hrest
        rw [hslot] at hfirst
        have hsame : [token] = rest := hfirst.eq_of_length_le (by simpa using hlength)
        subst hsame
        refine .ended (by rwa [hanswers]) ?_ ?_ ⟨[], ?_, Nat.zero_le _, List.nil_prefix⟩ ?_
        · simpa [Turn.event, Event.handed?] using hall
        · simpa [Turn.event, Event.settled?, Event.heard?] using
            hgone.trans (List.prefix_append _ _)
        · simpa [Turn.event, Event.handed?, Event.heard?] using hrest
        · simpa [Turn.event, Event.settled?] using hover
    | close => rcases hcall with h | h <;> cases h
    | full hstage | put hstage | refuse hstage =>
      rcases hstage with rfl | rfl <;> rcases hcall with h | h <;> cases h
    | onClosed | withdraw | settle | linger => rcases hcall with h | h <;> cases h
  rw [activity_take_of_ne Side.producer_ne]
  split
  · exact hphase.wake
  · exact hphase

/-- The producer begins a call. -/
theorem begin_producer (h : Phase tokens meeting .idle) {closes : Bool} {call : Call}
    (hcall : Conduct.sending closes tokens (meeting.answers .producer) = some call) :
    Phase tokens (meeting.begin .producer call) (.awake (.entry call)) := by
  rcases Conduct.sending_cases hcall with ⟨token, htaken, htoken, rfl⟩ | ⟨-, -, rfl, hlast⟩
  · cases h with
    | offered hstage => cases hstage
    | ended hactivity =>
      obtain ⟨-, hnot⟩ := hactivity.resolve_right nofun
      rw [htaken] at hnot
      cases hnot
    | ready hlive hslot hall hgone =>
      refine .calling ⟨by simpa using hlive.taken, hlive.closed, ?_⟩ (by simpa using htoken)
        hslot ?_ ?_
      · simpa [Event.settled?] using hlive.settled
      · simpa [Event.handed?, Event.settled?] using hall
      · simpa [Event.settled?, Event.heard?] using hgone
  · cases h with
    | offered hstage => cases hstage
    | ended _ hall hgone hrest hover =>
      refine .ended (.inr rfl) ?_ ?_ ?_ ?_
      · simpa [Event.handed?] using hall
      · simpa [Event.settled?, Event.heard?] using hgone
      · simpa [Event.handed?, Event.heard?] using hrest
      · simpa [Event.settled?] using hover
    | ready hlive hslot hall hgone =>
      refine .ended (.inr rfl) ?_ ?_ ⟨[], ?_, Nat.zero_le _, ?_⟩ (.inr ?_)
      · simpa [Event.handed?, hall, hlive.settled] using List.take_prefix _ _
      · simp [Event.settled?, Event.heard?, hgone]
      · simp [Event.handed?, Event.heard?, hall, hgone]
      · simp [hslot]
      · have hlength := hlast hlive.taken
        simp [Event.settled?, hlive.settled, hlength]

/-- The producer takes its turn. -/
theorem take_producer {stage : Stage} {turn : Turn} (h : Phase tokens meeting (.awake stage))
    (hturn : meeting.channel.Turns stage turn) :
    Phase tokens (meeting.take .producer turn) turn.activity := by
  have hanswer {answer : Answer} {channel : Channel} {wakes : Bool} :
      (meeting.take .producer ⟨channel, wakes, .ends answer⟩).answers .producer =
        meeting.answers .producer ++ [answer] := answers_take_of_ends rfl
  have hwait {next : Stage} {channel : Channel} {wakes : Bool} :
      (meeting.take .producer ⟨channel, wakes, .waits next⟩).answers .producer =
        meeting.answers .producer := answers_take_of_waits rfl _
  cases h with
  | @calling token hlive htoken hslot hall hgone =>
    have hprefix := hlive.handed_prefix htoken
    cases hturn with
    | take hstage | miss hstage | expect hstage => rcases hstage with h | h <;> cases h
    | onClosed hclosed =>
      rw [hlive.closed] at hclosed
      cases hclosed
    | refuse hstage hdetached =>
      rcases hstage with h | h <;> cases h
      refine .ended (.inl ⟨rfl, by simp [hanswer, Answer.isTaken]⟩) ?_ ?_
        ⟨[token], ?_, Nat.le_refl _, by simp [hslot]⟩ (.inl hdetached)
      · simpa [Turn.event, Event.handed?, hall] using hprefix
      · simp [Turn.event, Event.settled?, Event.heard?, hgone]
      · simpa [Turn.event, Event.handed?, Event.heard?, hgone] using hall
    | full hstage _ hsome =>
      rw [hslot] at hsome
      cases hsome
    | put hstage =>
      rcases hstage with h | h <;> cases h
      refine .offered rfl ⟨by rw [hwait]; exact hlive.taken, hlive.closed, ?_⟩
        (by rw [hwait]; exact htoken) ?_ ?_
      · rw [hwait, ← hlive.settled]
        simp [Turn.event, Event.settled?]
      · simpa [Turn.event, Event.handed?, Event.settled?] using hall
      · simp [Turn.event, Event.handed?, Event.heard?, hall, hgone]
  | offered hstage hlive htoken hall hgone =>
    cases hstage
    have hprefix := hlive.handed_prefix htoken
    cases hturn with
    | take hstage | miss hstage | expect hstage | refuse hstage | full hstage | put hstage =>
      rcases hstage with h | h <;> cases h
    | withdraw hdetached =>
      refine .ended (.inl ⟨rfl, by simp [hanswer, Answer.isTaken]⟩) ?_ ?_
        ⟨_, ?_, slot_length_le _, List.prefix_rfl⟩ (.inl hdetached)
      · simpa [Turn.event, Event.handed?, hall] using hprefix
      · simpa [Turn.event, Event.settled?, Event.heard?] using settled_prefix hall hgone
      · simpa [Turn.event, Event.handed?, Event.heard?] using hgone.symm
    | settle _ hslot =>
      rw [hslot, Option.toList_none, List.append_nil, hall] at hgone
      have hlt := (List.getElem?_eq_some_iff.1 htoken).1
      refine .ready ⟨by simp [hanswer, Answer.isTaken, hlive.taken], hlive.closed, ?_⟩ hslot ?_ ?_
      · rw [hanswer, List.length_append, List.length_singleton, List.take_add_one, htoken,
          ← hlive.settled]
        simp [Turn.event, Event.settled?]
      · simpa [Turn.event, Event.handed?, Event.settled?] using hall
      · simpa [Turn.event, Event.settled?, Event.heard?] using hgone
    | linger =>
      refine .offered rfl ⟨by rw [hwait]; exact hlive.taken, hlive.closed, ?_⟩
        (by rw [hwait]; exact htoken) ?_ ?_
      · rw [hwait, ← hlive.settled]
        simp [Turn.event, Event.settled?]
      · simpa [Turn.event, Event.handed?, Event.settled?] using hall
      · simpa [Turn.event, Event.handed?, Event.heard?] using hgone
  | ended hactivity hall hgone hrest hover =>
    obtain rfl : stage = .entry .close := by
      rcases hactivity with ⟨h, -⟩ | h <;> cases h
      rfl
    cases hturn with
    | take hstage | miss hstage | expect hstage | refuse hstage | full hstage | put hstage =>
      rcases hstage with h | h <;> cases h
    | close =>
      refine .ended (.inl ⟨rfl, by simp [hanswer, Answer.isTaken]⟩) ?_ ?_ ?_ ?_
      · simpa [Turn.event, Event.handed?] using hall
      · simpa [Turn.event, Event.settled?, Event.heard?] using hgone
      · simpa [Turn.event, Event.handed?, Event.heard?, Channel.close] using hrest
      · simpa [Turn.event, Event.settled?, Channel.close] using hover

/-- What has been handed over is at the front of the tokens; what has been received is all of it or
all but the last one; and what has been settled has been received. -/
theorem ahead (h : Phase tokens meeting activity) : handed meeting.events <+: tokens ∧
    settled meeting.events <+: received meeting.events ∧
    ∃ rest, handed meeting.events = received meeting.events ++ rest ∧ rest.length ≤ 1 := by
  cases h with
  | ready hlive _ hall hgone =>
    refine ⟨?_, hgone ▸ List.prefix_rfl, [], by rw [hall, hgone, List.append_nil], Nat.zero_le _⟩
    rw [hall, hlive.settled]
    exact List.take_prefix _ _
  | @calling token hlive htoken _ hall hgone =>
    refine ⟨hall ▸ hlive.handed_prefix htoken, hgone ▸ List.prefix_rfl, [token], ?_, Nat.le_refl _⟩
    rw [hall, hgone]
  | offered _ hlive htoken hall hgone =>
    exact ⟨hall ▸ hlive.handed_prefix htoken, settled_prefix hall hgone, _, hgone.symm,
      slot_length_le meeting.channel⟩
  | ended _ hall hgone hrest =>
    obtain ⟨rest, hrest, hlength, -⟩ := hrest
    exact ⟨hall, hgone, rest, hrest, hlength⟩

end Phase

/-- The producer is always in one of the phases. -/
theorem Reaches.phase {closes : Bool} {receiver : Conduct} (hreceiver : receiver.Listens)
    (h : Reaches (Conduct.sides (.sending closes tokens) receiver) {} meeting) :
    Phase tokens meeting (meeting.activity .producer) := by
  have hstart : Phase tokens ({} : Meeting Side) .idle := .ready ⟨rfl, rfl, rfl⟩ rfl rfl rfl
  have hlistens {meeting : Meeting Side} {stage : Stage}
      (h : Reaches (Conduct.sides (.sending closes tokens) receiver) {} meeting)
      (hawake : meeting.activity .receiver = .awake stage) :
      stage.call = .receive ∨ stage.call = .detach := by
    exact hreceiver _ _ (h.conducted .receiver (by rw [hawake]; rfl))
  induction h with
  | refl => exact hstart
  | @step meeting next party hreaches hstep ih =>
    rcases step?_cases hstep with ⟨call, hidle, hcall, rfl⟩ | ⟨stage, hawake, rfl⟩
    · cases party with
      | producer =>
        rw [activity_begin_self]
        rw [hidle] at ih
        exact ih.begin_producer hcall
      | receiver => exact ih.begin_receiver (hreceiver _ _ hcall)
    · have hturn := Channel.turns_turn meeting.channel stage
      cases party with
      | producer =>
        rw [activity_take_self]
        rw [hawake] at ih
        exact ih.take_producer hturn
      | receiver => exact ih.take_receiver (hlistens hreaches hawake) hturn

/-- One producer and one receiver, in whatever order they take their turns and at every moment. What
has been received is at the front of what has been handed to sends, in order, and that at the front
of the producer's tokens. The sends that have succeeded are for tokens that have been received. At
most one token has been handed over and not received. And a receive ends without a token only when
the slot is empty and the channel is closed or detached from. -/
theorem Reaches.rendezvous {closes : Bool} {receiver : Conduct} (hreceiver : receiver.Listens)
    (h : Reaches (Conduct.sides (.sending closes tokens) receiver) {} meeting) :
    received meeting.events <+: handed meeting.events ∧ handed meeting.events <+: tokens ∧
      settled meeting.events <+: received meeting.events ∧
      (handed meeting.events).length ≤ (received meeting.events).length + 1 ∧
      ∀ before side, meeting.events = before ++ [.ends side (.received none)] →
        meeting.channel.slot = none ∧
          (meeting.channel.closed = true ∨ meeting.channel.detached = true) := by
  obtain ⟨hhanded, hsettled, rest, hrest, hlength⟩ := (h.phase hreceiver).ahead
  refine ⟨hrest ▸ List.prefix_append _ _, hhanded, hsettled, ?_, fun before side => h.missed⟩
  rw [hrest, List.length_append]
  exact Nat.add_le_add_left hlength _

/-- The receiver detaches while the second token lies in the slot, and receives twice after
that. -/
theorem rendezvous_detached :
    ∃ meeting : Meeting Side, ∃ first second : Token,
      (Conduct.following [.receive, .detach, .receive, .receive]).Listens ∧
      Reaches (Conduct.sides (.sending true [first, second])
        (.following [.receive, .detach, .receive, .receive])) {} meeting ∧
      received meeting.events = [first, second] ∧
      received meeting.events <+: handed meeting.events ∧ settled meeting.events = [first] ∧
      settled meeting.events <+: received meeting.events ∧
      (handed meeting.events).length ≤ (received meeting.events).length + 1 ∧
      meeting.channel.slot = none ∧
      (meeting.channel.closed = true ∨ meeting.channel.detached = true) := by
  let first : Token := ⟨.ident, "a", 1⟩
  let second : Token := ⟨.ident, "b", 1⟩
  let listener : Conduct := .following [.receive, .detach, .receive, .receive]
  let schedule : List Side := [.producer, .receiver, .receiver, .producer, .receiver, .producer,
    .producer, .producer, .receiver, .receiver, .producer, .receiver, .receiver, .receiver,
    .receiver]
  have hlistens : listener.Listens := Conduct.listens_following (by simp)
  let before : List (Event Side) := [.begins .producer (.send first), .begins .receiver .receive,
    .waits .receiver, .waits .producer, .ends .receiver (.received (some first)),
    .ends .producer (.sent first .taken), .begins .producer (.send second), .waits .producer,
    .begins .receiver .detach, .ends .receiver .detached, .ends .producer (.sent second .refused),
    .begins .receiver .receive, .ends .receiver (.received (some second)),
    .begins .receiver .receive]
  have hrun : (run? (Conduct.sides (.sending true [first, second]) listener) schedule {}).map
      (·.events) = some (before ++ [.ends .receiver (.received none)]) := by decide +kernel
  obtain ⟨meeting, hmeeting, hevents⟩ := Option.map_eq_some_iff.1 hrun
  have hreaches := Reaches.refl.run? hmeeting
  obtain ⟨hreceived, -, hsettled, hlength, hmissed⟩ := hreaches.rendezvous hlistens
  refine ⟨meeting, first, second, hlistens, hreaches, ?_, hreceived, ?_, hsettled, hlength,
    hmissed before .receiver hevents⟩
  · rw [hevents]
    rfl
  · rw [hevents]
    rfl

end Meeting

end ThreeAddress
