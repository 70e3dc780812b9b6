import ThreeAddress.Grammar.Phrase
import ThreeAddress.Token.Channel

/-!
# From text to tree

Two ways to read a program. Inline, the text is cut into tokens first and the tokens are read
after that. Concurrently, a producer cuts the text and hands each token over a channel when the
reader asks for it; the reader stops listening when it has its answer, whichever that is.
-/

namespace ThreeAddress

/-- Reads a program off an exchange and then stops listening. The budget is that of the reader
alone, whoever fills the exchange. -/
def Exchange.read (exchange : Exchange) (budget : Nat) :
    Except GrammarError Tree × Exchange :=
  let feed := exchange.feed
  let taken (cursor : Cursor) := feed.length - cursor.unread.length
  match Tree.readFrom budget feed with
  | .ok tree cursor => (.ok tree, (exchange.afterReceives (taken cursor)).detach)
  | .error error cursor => (.error error, (exchange.afterReceives (taken cursor)).detach)

/-- The tree of a text, read inline or concurrently. Both ways the reader is assumed to have the
same budget for nesting. -/
def Tree.ofSource (concurrent : Bool) (budget : Nat) (source : String) :
    Except GrammarError Tree :=
  if concurrent then ((Exchange.start source).read budget).1
  else Tree.ofTokens budget (tokenize source)

end ThreeAddress
