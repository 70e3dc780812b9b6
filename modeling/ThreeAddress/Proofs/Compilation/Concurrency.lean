import ThreeAddress.Compilation
import ThreeAddress.Proofs.Grammar.Invariance
import ThreeAddress.Proofs.Grammar.Sources
import ThreeAddress.Proofs.Token.Listening

/-!
# Reading while the text is cut into tokens

The producer of the tokens and the reader as two parties on a channel (`Conduct.frontEnd`). The
reader receives until the tokens that it has are all that it would ask for (`Tree.verdict?`), and
then detaches, whether it has read a tree or failed. Such a pair delivers the tree or the error that
reading the tokens inline has (`FrontEnd.Delivers`), so a compilation does not depend on which of
the two ways is taken (`compile_concurrent`).
-/

namespace ThreeAddress

open Meeting

namespace Tree

/-- What the reader yields when its receives have ended like this and it asks for no other token. To
be told that there is no token is to be at the end of the tokens. -/
def verdict? (budget : Nat) (heard : List (Option Token)) : Option (Except GrammarError Tree) :=
  if reads budget heard.reduceOption ≤ heard.length then some (ofTokens budget heard.reduceOption)
  else none

/-- The reader has its tree or its error as soon as it has been given the tokens that it asks for,
and not before. -/
theorem verdict?_take (budget : Nat) {tokens : List Token} {length : Nat}
    (h : length ≤ tokens.length) : verdict? budget ((tokens.take length).map some) =
      if reads budget tokens ≤ length then some (ofTokens budget tokens) else none := by
  have hreduce : ((tokens.take length).map some).reduceOption = tokens.take length := by
    rw [List.reduceOption, List.filterMap_map]
    exact List.filterMap_some
  have hlength : (tokens.take length).length = length := List.length_take_of_le h
  rw [verdict?, hreduce, List.length_map, hlength]
  by_cases hreads : reads budget tokens ≤ length
  · have htake : (tokens.take length).take (reads budget tokens) =
        tokens.take (reads budget tokens) := by
      rw [List.take_take, Nat.min_eq_left hreads]
    obtain ⟨hsame, htree⟩ := ofTokens_congr htake
    rw [hsame, htree]
  · rw [if_neg hreads, if_neg]
    -- Had the reader been content with these tokens, it would not ask for more of all of them.
    intro hless
    have htake : tokens.take (reads budget (tokens.take length)) =
        (tokens.take length).take (reads budget (tokens.take length)) := by
      rw [List.take_take, Nat.min_eq_left hless]
    rw [(ofTokens_congr htake).1] at hreads
    exact hreads hless

/-- The reader of a text needs no more tokens than there are. -/
theorem suffices_reads (budget : Nat) (source : String) :
    Suffices (fun heard => (verdict? budget heard).isSome) (tokenize source)
      (reads budget (tokenize source)) := by
  constructor
  · have hend : (tokenize source)[(scanLines 1 (Text.splitLines source.toList)).length]? =
        some (endToken source.toList) := List.getElem?_concat_length
    have hreads : reads budget (tokenize source) ≤ _ := reads_le hend rfl
    rwa [tokenize, List.length_append]
  · intro length hlength
    rw [verdict?_take budget hlength]
    split
    · next hreads => exact ⟨fun _ => hreads, fun _ => rfl⟩
    · next hreads => exact ⟨fun hnone => absurd hnone Bool.false_ne_true, fun h => absurd h hreads⟩

end Tree

/-- One side cuts the text into tokens and hands them over, the other one reads them. -/
def Conduct.frontEnd (budget : Nat) (source : String) : Side → Conduct :=
  .delivery (tokenize source) fun heard => (Tree.verdict? budget heard).isSome

/-- What holds whenever a text is handed over to its reader. -/
structure FrontEnd.Delivers (budget : Nat) (source : String) (meeting : Meeting Side) : Prop where
  /-- Neither side waits for ever. -/
  progress : meeting.IsFinished (Conduct.frontEnd budget source) ∨
    ∃ side next, meeting.step? (Conduct.frontEnd budget source) side = some next
  /-- The sides do not go on for ever. -/
  bounded : meeting.events.length ≤ 6 * ((tokenize source).length + 1)
  /-- Nothing is sent on a channel that has been closed. -/
  unclosed {side : Side} {stage : Stage} {token : Token} :
    (meeting.activity side).stage? = some stage → stage.call = .send token →
      meeting.channel.closed = false
  /-- The reader receives the tokens of the text from the first one on, and is never told that there
  is none. -/
  received : ∃ count, heard meeting.events = ((tokenize source).take count).map some
  /-- If the reader ends, it is with the tree or the error of the text. -/
  verdict {result : Except GrammarError Tree} :
    Tree.verdict? budget (heard meeting.events) = some result →
      Tree.ofTokens budget (tokenize source) = result
  /-- The channel is closed once at most. -/
  closes : (meeting.answers .producer).count .closed ≤ 1
  /-- At the end the reader has ended, and the channel has been closed. -/
  finished : meeting.IsFinished (Conduct.frontEnd budget source) →
    (Tree.verdict? budget (heard meeting.events)).isSome = true ∧
      (meeting.answers .producer).count .closed = 1

/-- A text is delivered to its reader in whatever order the two sides take their turns. -/
theorem FrontEnd.delivers {budget : Nat} {source : String} {meeting : Meeting Side}
    (h : Reaches (Conduct.frontEnd budget source) {} meeting) : Delivers budget source meeting := by
  have hsuffices := Tree.suffices_reads budget source
  have hheard := h.heard_eq_take hsuffices
  refine ⟨h.progress, h.length_events_le hsuffices, h.closed_of_sending, ⟨_, hheard⟩, ?_,
    h.isSent.closes, fun hfinished => (h.of_isFinished hfinished).symm⟩
  intro result hresult
  have hlength : (heard meeting.events).length ≤ (tokenize source).length := by
    rw [hheard, List.length_map]
    exact List.length_take_le' _ _
  rw [hheard, Tree.verdict?_take budget hlength] at hresult
  split at hresult
  · exact Option.some.inj hresult
  · cases hresult

/-- A compilation yields the same and writes the same journal whether the text is cut into tokens
first or concurrently. And when this is done concurrently, then whatever the order is in which the
producer and the reader take their turns, they do not wait for ever, the reader ends with what it
would read inline, and the channel is closed once. -/
theorem compile_concurrent (budgets : Budgets) (request : Request) (source : String) :
    compile budgets { request with concurrent := true } source =
      compile budgets { request with concurrent := false } source ∧
    ∀ meeting, Reaches (Conduct.frontEnd budgets.reading source) {} meeting →
      FrontEnd.Delivers budgets.reading source meeting := by
  refine ⟨?_, fun meeting => FrontEnd.delivers⟩
  have hsource : Compile.source budgets { request with concurrent := true } source =
      Compile.source budgets { request with concurrent := false } source := by
    unfold Compile.source Compile.readTree
    rw [Tree.ofSource_eq, Tree.ofSource_eq]
  rw [compile, compile, hsource]

/-- The reader of `1;` fails at the number, and detaches while the semicolon lies in the slot. -/
theorem compile_concurrent_detached (request : Request) :
    ∃ meeting : Meeting Side, Reaches (Conduct.frontEnd 4 "1;") {} meeting ∧
      meeting.IsFinished (Conduct.frontEnd 4 "1;") ∧
      heard meeting.events = [some ⟨.intLit, "1", 1⟩] ∧
      meeting.channel.slot = some ⟨.semicolon, ";", 1⟩ ∧
      Tree.ofTokens 4 (tokenize "1;") = .error (.expected .statement "1" 1) ∧
      FrontEnd.Delivers 4 "1;" meeting := by
  have htokens : tokenize "1;" = [⟨.intLit, "1", 1⟩, ⟨.semicolon, ";", 1⟩,
      ⟨.endOfFile, "end of file", 1⟩] := by decide +kernel
  let schedule : List Side := [.producer, .producer, .receiver, .receiver, .producer, .producer,
    .receiver, .producer, .receiver, .producer, .producer, .producer]
  have hrun : (run? (Conduct.frontEnd 4 "1;") schedule {}).isSome = true := by
    rw [Conduct.frontEnd, htokens]
    rfl
  obtain ⟨meeting, hmeeting⟩ := Option.isSome_iff_exists.1 hrun
  have hreaches := Reaches.refl.run? hmeeting
  have hdelivers := (compile_concurrent { reading := 4 } request "1;").2 meeting hreaches
  have hlast : meeting.IsFinished (Conduct.frontEnd 4 "1;") ∧
      heard meeting.events = [some ⟨.intLit, "1", 1⟩] ∧
      meeting.channel.slot = some ⟨.semicolon, ";", 1⟩ := by
    rw [Conduct.frontEnd, htokens] at hmeeting ⊢
    cases hmeeting
    exact ⟨fun side => by cases side <;> exact ⟨rfl, rfl⟩, rfl, rfl⟩
  obtain ⟨hfinished, hheard, hslot⟩ := hlast
  refine ⟨meeting, hreaches, hfinished, hheard, hslot, ?_, hdelivers⟩
  rw [htokens]
  rfl

end ThreeAddress
