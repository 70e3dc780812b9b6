import ThreeAddress.Token.Scan

/-!
# Handing tokens over

A channel joins one producer of tokens to one receiver. It holds at most one token, and a send
is not over before the token has been taken, so a producer is never more than one token ahead.
Either side may end the exchange: the producer closes, the receiver detaches.

Every operation is split where it may have to wait. An operation that has to wait answers
`none` and changes nothing; a schedule is any order in which the halves that need not wait are
carried out. `Exchange` is the schedule in which the producer always runs until it has to wait.
-/

namespace ThreeAddress

/-- A hand-off point for single tokens. -/
structure Channel where
  /-- The token handed over and not yet taken. -/
  slot : Option Token := none
  /-- The producer has ended. -/
  closed : Bool := false
  /-- The receiver has stopped listening. -/
  detached : Bool := false
  deriving DecidableEq, Repr

/-- How a send ends. -/
inductive Sent where
  /-- The receiver took the token. -/
  | taken
  /-- The receiver had stopped listening. -/
  | refused
  /-- The channel was closed before the send. -/
  | onClosed
  deriving DecidableEq, Repr

namespace Channel

/-- No token will follow. -/
def close (channel : Channel) : Channel := { channel with closed := true }

/-- The receiver stops listening. -/
def detach (channel : Channel) : Channel := { channel with detached := true }

/-- The next token, or the answer that there is none; waits while the slot is empty and the
exchange goes on. -/
def receive? (channel : Channel) : Option (Option Token × Channel) :=
  match channel.slot with
  | some token => some (some token, { channel with slot := none })
  | none => if channel.closed || channel.detached then some (none, channel) else none

/-- The first half of a send: the token goes into the slot, or the send is over at once. Waits
while the slot is full. -/
def offer? (channel : Channel) (token : Token) : Option (Option Sent × Channel) :=
  if channel.closed then some (some .onClosed, channel)
  else if channel.detached then some (some .refused, channel)
  else if channel.slot.isSome then none
  else some (none, { channel with slot := some token })

/-- The second half of a send: whether the token was taken. Waits while it was not and the
receiver listens. -/
def settle? (channel : Channel) : Option Sent :=
  if channel.detached then some .refused
  else if channel.slot.isNone then some .taken
  else none

end Channel

/-- A producer in the course of its sends. -/
structure Producer where
  /-- The tokens not yet handed over. -/
  pending : List Token
  /-- Whether it closes the channel when it ends. -/
  closes : Bool
  /-- Whether a token of its own is in the slot. -/
  waiting : Bool := false
  /-- How its sends have ended so far, the last one first. -/
  results : List Sent := []
  /-- Whether it has ended. -/
  done : Bool := false
  deriving DecidableEq, Repr

namespace Producer

/-- The producer ends, and closes the channel if that is its part. -/
def finish (producer : Producer) (channel : Channel) : Producer × Channel :=
  ({ producer with done := true, waiting := false },
    if producer.closes then channel.close else channel)

/-- A send has ended: the producer goes on after a token that was taken and ends otherwise. -/
def record (producer : Producer) (sent : Sent) (channel : Channel) : Producer × Channel :=
  let producer := { producer with results := sent :: producer.results, waiting := false }
  if sent = .taken then (producer, channel) else producer.finish channel

/-- The next half send, or the end after the last token; `none` where the producer has to wait
or has ended. -/
def step? (producer : Producer) (channel : Channel) : Option (Producer × Channel) :=
  if producer.done then none
  else if producer.waiting then (channel.settle?).map fun sent => producer.record sent channel
  else
    match producer.pending with
    | [] => some (producer.finish channel)
    | token :: pending =>
      match channel.offer? token with
      | none => none
      | some (some sent, channel) => some ({ producer with pending }.record sent channel)
      | some (none, channel) => some ({ producer with pending, waiting := true }, channel)

/-- At most `steps` steps of the producer. -/
def run : Nat → Producer × Channel → Producer × Channel
  | 0, state => state
  | steps + 1, state =>
    match state.1.step? state.2 with
    | some next => run steps next
    | none => state

end Producer

/-- A channel with the producer at its one end, at rest: the producer has ended or waits. -/
structure Exchange where
  channel : Channel := {}
  producer : Producer := { pending := [], closes := false, done := true }
  deriving Repr

namespace Exchange

/-- Lets the producer run until it has to wait or has ended. That is at most two steps: the end
of a send that the receiver has answered, and the next token put into the slot or the end of the
producer. -/
def rest (exchange : Exchange) : Exchange :=
  let state := Producer.run 2 (exchange.producer, exchange.channel)
  ⟨state.2, state.1⟩

/-- How the sends of the producer have ended so far, the first one first. -/
def results (exchange : Exchange) : List Sent := exchange.producer.results.reverse

/-- A new channel with a producer that sends the tokens of a text and then closes. -/
def start (source : String) : Exchange :=
  rest { producer := { pending := tokenize source, closes := true } }

/-- A new producer on the same channel sends these tokens and leaves the channel open. -/
def send (exchange : Exchange) (tokens : List Token) : Exchange :=
  rest { exchange with producer := { pending := tokens, closes := false } }

/-- The producer's part is over: the channel is closed. -/
def close (exchange : Exchange) : Exchange :=
  rest { exchange with channel := exchange.channel.close }

/-- The receiver stops listening. -/
def detach (exchange : Exchange) : Exchange :=
  rest { exchange with channel := exchange.channel.detach }

/-- The next token. A receiver that would wait for ever gets none. -/
def receive (exchange : Exchange) : Option Token × Exchange :=
  match exchange.channel.receive? with
  | some (token, channel) => (token, rest { exchange with channel })
  | none => (none, exchange)

/-- The exchange after so many receives. -/
def afterReceives : Nat → Exchange → Exchange
  | 0, exchange => exchange
  | count + 1, exchange => afterReceives count exchange.receive.2

/-- The tokens the receiver would get from here on: the one in the slot, and while the receiver
listens those the producer has not handed over. -/
def feed (exchange : Exchange) : List Token :=
  exchange.channel.slot.toList ++
    if exchange.channel.detached || exchange.producer.done then []
    else exchange.producer.pending

end Exchange

/-- Hands the tokens over one at a time until one is refused, and closes in either case. The
receiver is given by what it does with a token and what it does at the end. -/
def produce {State : Type} (send : State → Token → Bool × State) (close : State → State) :
    List Token → State → State
  | [], state => close state
  | token :: tokens, state =>
    match send state token with
    | (true, state) => produce send close tokens state
    | (false, state) => close state

end ThreeAddress
