import ThreeAddress.Proofs.Grammar.Position

/-!
# Walks along tokens

How far a reader goes along a list of tokens, and what it has seen when it stops. A reader that
gets its phrase has passed over the tokens of the phrase (`Walks`), and looks at the next one. A
reader that fails, fails at a token that it has asked for last (`GrammarError.IsAt`), and what it
has passed over until then can be completed.

A second reader on other tokens is watched beside it. As long as the tokens are of the same kinds
(`Alike`), it can only come to the same place, and has no phrase where the first one fails. So
what stands behind the place is of no account for either of them.
-/

namespace ThreeAddress

open Sequence

/-! ## Places -/

/-- The line of the last token, one if there is none. -/
def lastLine (tokens : List Token) : Line := (tokens.getLast?.map Token.line).getD 1

/-- The place at a position: the cursor has asked for the token there and for those before. -/
def Cursor.place (tokens : List Token) (position : Nat) : Cursor :=
  ⟨tokens[position]?, tokens.drop (position + 1), lastLine (tokens.take (position + 1)),
    position + 1⟩

/-- The token at the position is valid, if there is one. -/
def Readable (tokens : List Token) (position : Nat) : Prop :=
  (tokens[position]?).map Token.kind ≠ some .invalid

/-- The kinds are those of the tokens from the position on. -/
def KindsAt (tokens : List Token) (position : Nat) (kinds : List TokenKind) : Prop :=
  kinds <+: (tokens.drop position).map Token.kind

/-- The tokens from one position to another, this one included, are of the same kinds. -/
def Alike (tokens others : List Token) (first last : Nat) : Prop :=
  ∀ position, first ≤ position → position ≤ last →
    (tokens[position]?).map Token.kind = (others[position]?).map Token.kind

/-- The nesting has used up the budget. -/
def GrammarError.IsTooDeep (error : GrammarError) : Prop :=
  ∃ lexeme line, error = .tooDeep lexeme line

/-- The error is about the token at the position, or about the end of the tokens if there is none,
and no other token has been asked for since. -/
structure GrammarError.IsAt (tokens : List Token) (position : Nat) (error : GrammarError)
    (cursor : Cursor) : Prop where
  reads : cursor.reads = position + 1
  unread : cursor.unread = tokens.drop (position + 1)
  token {token : Token} : tokens[position]? = some token → ∃ reason, error.report =
    if token.kind = .invalid then .lexical reason token.lexeme token.line
    else .grammar reason token.lexeme token.line
  ended : tokens[position]? = none → ∃ what, error = .inputEnded what (lastLine tokens)

section
variable {tokens others : List Token} {position first last : Nat}

/-- The token at the position is looked at. -/
theorem token_place {token : Token} (h : tokens[position]? = some token) :
    (Cursor.place tokens position).token = token := by
  rw [Cursor.token, Cursor.place, h]
  rfl

/-- The kind of the token looked at. -/
theorem kind_place : (Cursor.place tokens position).token.kind =
    ((tokens[position]?).map Token.kind).getD .invalid := by
  rw [Cursor.token, Cursor.place]
  cases tokens[position]? <;> rfl

/-- A token that is looked at and valid stands at the position. -/
theorem getElem?_of_kind_place {kind : TokenKind}
    (h : (Cursor.place tokens position).token.kind = kind) (hvalid : kind ≠ .invalid) :
    (tokens[position]?).map Token.kind = some kind := by
  rw [kind_place] at h
  cases hkind : (tokens[position]?).map Token.kind with
  | none =>
    rw [hkind] at h
    exact absurd h.symm hvalid
  | some found =>
    rw [hkind] at h
    rw [← h]
    rfl

/-- Places tell their positions. -/
theorem place_inj {other : Nat} (h : Cursor.place tokens position = .place tokens other) :
    position = other := Nat.succ.inj (congrArg Cursor.reads h)

/-- At a place the token there is looked at, and no token behind it has been asked for. -/
theorem Cursor.at_place : (Cursor.place tokens position).At tokens position := by
  refine ⟨?_, rfl, fun hnone => ?_⟩
  · show (tokens[position]?).toList ++ tokens.drop (position + 1) = tokens.drop position
    cases htoken : tokens[position]? with
    | none =>
      have hlength := List.getElem?_eq_none_iff.1 htoken
      rw [List.drop_eq_nil_of_le hlength, List.drop_eq_nil_of_le (Nat.le_succ_of_le hlength)]
      rfl
    | some token =>
      obtain ⟨hlt, rfl⟩ := List.getElem?_eq_some_iff.1 htoken
      exact (List.drop_eq_getElem_cons hlt).symm
  · exact List.drop_eq_nil_of_le (Nat.le_succ_of_le (List.getElem?_eq_none_iff.1 hnone))

/-- At a place there are as many tokens left as there are behind the position. -/
theorem length_le_remaining (tokens : List Token) : tokens.length ≤ position +
    ((Cursor.place tokens position).current.toList ++
      (Cursor.place tokens position).unread).length := by
  rw [Cursor.at_place.pending, List.length_drop]
  omega

/-- No kinds stand anywhere. -/
theorem KindsAt.nil : KindsAt tokens position [] := List.nil_prefix

/-- One kind. -/
theorem KindsAt.singleton {kind : TokenKind}
    (h : (tokens[position]?).map Token.kind = some kind) : KindsAt tokens position [kind] := by
  obtain ⟨token, htoken, rfl⟩ := Option.map_eq_some_iff.1 h
  obtain ⟨hlt, rfl⟩ := List.getElem?_eq_some_iff.1 htoken
  rw [KindsAt, List.drop_eq_getElem_cons hlt, List.map_cons]
  exact ⟨_, rfl⟩

/-- Kinds, and kinds behind them. -/
theorem KindsAt.append {kinds more : List TokenKind} (h : KindsAt tokens position kinds)
    (hmore : KindsAt tokens (position + kinds.length) more) :
    KindsAt tokens position (kinds ++ more) := by
  obtain ⟨rest, hrest⟩ := h
  rw [KindsAt, ← List.drop_drop, List.map_drop, ← hrest, List.drop_left] at hmore
  rw [KindsAt, ← hrest]
  exact List.prefix_append_right_inj kinds |>.2 hmore

/-- Behind the kinds there is the end of the tokens at the latest. -/
theorem KindsAt.add_length_le {kinds : List TokenKind} (h : KindsAt tokens position kinds)
    (hle : position ≤ tokens.length) : position + kinds.length ≤ tokens.length := by
  have hlength := h.length_le
  rw [List.length_map, List.length_drop] at hlength
  omega

/-- Tokens of the same kinds, in parts. -/
theorem Alike.mono {first' last' : Nat} (h : Alike tokens others first last)
    (hfirst : first ≤ first') (hlast : last' ≤ last) : Alike tokens others first' last' :=
  fun position hle hge => h position (Nat.le_trans hfirst hle) (Nat.le_trans hge hlast)

/-- Tokens of the same kinds are looked at. -/
theorem Alike.kind_place (h : Alike tokens others first last) (hle : first ≤ last) :
    (Cursor.place others first).token.kind = (Cursor.place tokens first).token.kind := by
  rw [ThreeAddress.kind_place, ThreeAddress.kind_place, h first (Nat.le_refl _) hle]

/-- The line at a place is that of its token. -/
theorem lastLine_take {token : Token} (h : tokens[position]? = some token) :
    lastLine (tokens.take (position + 1)) = token.line := by
  rw [lastLine, List.getLast?_take, if_neg (Nat.succ_ne_zero _), Nat.add_sub_cancel, h]
  rfl

/-! ## Advancing -/

/-- The cursor has not asked for the token at the position, but for all before. -/
structure Cursor.Before (tokens : List Token) (position : Nat) (cursor : Cursor) : Prop where
  unread : cursor.unread = tokens.drop position
  line : cursor.line = lastLine (tokens.take position)
  reads : cursor.reads = position

/-- At the start nothing has been asked for. -/
theorem Cursor.before_start : (Cursor.start tokens).Before tokens 0 := ⟨rfl, rfl, rfl⟩

/-- At a place nothing behind it has been asked for. -/
theorem Cursor.before_place : (Cursor.place tokens position).Before tokens (position + 1) :=
  ⟨rfl, rfl, rfl⟩

namespace Reader

variable {cursor : Cursor}

/-- A valid token is gone to. -/
theorem advance_of_readable (h : cursor.Before tokens position)
    (hreadable : Readable tokens position) :
    advance cursor = .ok () (.place tokens position) := by
  rw [advance, h.unread, Cursor.place]
  cases htoken : tokens[position]? with
  | none =>
    have hlength := List.getElem?_eq_none_iff.1 htoken
    have hline : lastLine (tokens.take (position + 1)) = cursor.line := by
      rw [h.line, List.take_of_length_le hlength,
        List.take_of_length_le (Nat.le_succ_of_le hlength)]
    rw [List.drop_eq_nil_of_le hlength, List.drop_eq_nil_of_le (Nat.le_succ_of_le hlength), hline,
      h.reads]
  | some token =>
    obtain ⟨hlt, rfl⟩ := List.getElem?_eq_some_iff.1 htoken
    have hvalid : tokens[position].kind ≠ .invalid := by
      intro hinvalid
      exact hreadable (by rw [htoken, Option.map_some, hinvalid])
    rw [List.drop_eq_getElem_cons hlt, lastLine_take htoken, h.reads]
    exact if_neg hvalid

/-- At an invalid token the reader ends with an error, and has asked for the token. -/
theorem advance_invalid {token : Token} (h : cursor.Before tokens position)
    (htoken : tokens[position]? = some token) (hkind : token.kind = .invalid) :
    advance cursor = .error (.invalidToken token.lexeme token.line)
      { cursor with unread := tokens.drop (position + 1), reads := position + 1 } := by
  obtain ⟨hlt, rfl⟩ := List.getElem?_eq_some_iff.1 htoken
  rw [advance, h.unread, List.drop_eq_getElem_cons hlt, h.reads]
  exact if_pos hkind

/-- An invalid token is an error about it. -/
theorem advance_of_invalid (h : cursor.Before tokens position)
    (hinvalid : ¬Readable tokens position) :
    ∃ error after, advance cursor = .error error after ∧ error.IsAt tokens position after := by
  obtain ⟨token, htoken, hkind⟩ := Option.map_eq_some_iff.1 (Decidable.not_not.1 hinvalid)
  refine ⟨_, _, advance_invalid h htoken hkind, rfl, rfl, ?_, ?_⟩
  · intro token' htoken'
    cases htoken.symm.trans htoken'
    exact ⟨"invalid token", by rw [if_pos hkind]; rfl⟩
  · intro hnone
    rw [htoken] at hnone
    cases hnone

/-- The error of a rule that does not go on. -/
theorem failExpecting_eq {Value : Type} (what : Expectation) (cursor : Cursor) :
    (failExpecting what : Reader Value) cursor =
      .error (if cursor.token.kind = .invalid then .inputEnded what cursor.token.line
        else .expected what cursor.token.lexeme cursor.token.line) cursor := by
  show (if cursor.token.kind = .invalid then throw _ else throw _ : Reader Value) _ = _
  split <;> rfl

/-- A rule that does not go on is an error about the token looked at, or about the end. -/
theorem failExpecting_at (Value : Type) (what : Expectation)
    (hreadable : Readable tokens position) :
    ∃ error, (failExpecting what : Reader Value) (.place tokens position) =
        .error error (.place tokens position) ∧
      error.IsAt tokens position (.place tokens position) := by
  refine ⟨_, failExpecting_eq what _, rfl, rfl, fun {token} htoken => ?_, fun hnone => ?_⟩
  · have hvalid : token.kind ≠ .invalid :=
      fun hinvalid => hreadable (by rw [htoken, Option.map_some, hinvalid])
    rw [token_place htoken, if_neg hvalid]
    exact ⟨what.phrase ++ " expected", (if_neg hvalid).symm⟩
  · have hlooked : (Cursor.place tokens position).token = ⟨.invalid, "", lastLine tokens⟩ := by
      rw [Cursor.token, Cursor.place, hnone,
        List.take_of_length_le (Nat.le_succ_of_le (List.getElem?_eq_none_iff.1 hnone))]
      rfl
    rw [hlooked]
    exact ⟨what, rfl⟩

end Reader
end

/-! ## Walks -/

/-- The first reader goes from one position on over tokens of wanted kinds, to a place at which no
token is invalid; or it fails after tokens whose kinds can be completed to wanted ones; or its
budget is used up, which happens only if the nesting may be too deep. The second reader, on tokens
of the same kinds up to and including the one at which the first reader stops, comes to the same
place if it comes to an end, or has no value either. -/
def Reader.Walks {Value : Type} (tokens others : List Token) (deep : Prop)
    (wanted : List TokenKind → Prop) (run other : Reader Value) (position : Nat) : Prop :=
  Readable tokens position → position ≤ tokens.length →
    match run (.place tokens position) with
    | .ok _ after => ∃ kinds : List TokenKind,
        after = .place tokens (position + kinds.length) ∧ KindsAt tokens position kinds ∧
        Readable tokens (position + kinds.length) ∧ wanted kinds ∧
        ∀ value last, Alike tokens others position (position + kinds.length) →
          other (.place others position) = .ok value last →
          last = .place others (position + kinds.length)
    | .error error after => (deep ∧ error.IsTooDeep) ∨ ∃ kinds : List TokenKind,
        KindsAt tokens position kinds ∧ (∃ more, wanted (kinds ++ more)) ∧
        error.IsAt tokens (position + kinds.length) after ∧
        ∀ value last, Alike tokens others position (position + kinds.length) →
          other (.place others position) ≠ .ok value last

namespace Reader.Walks

variable {tokens others : List Token} {deep : Prop} {wanted : List TokenKind → Prop}
  {position : Nat} {Value Next : Type} {run other : Reader Value}

/-- A reader that does only what some of other readers do goes where they go. -/
theorem of_others {Index : Type} (readers : Index → Reader Value) (given : Index)
    (h : ∀ index, Walks tokens others deep wanted run (readers index) position)
    (hother : ∀ value last, other (.place others position) = .ok value last →
      ∃ index, Alike tokens others position position →
        readers index (.place others position) = .ok value last) :
    Walks tokens others deep wanted run other position := by
  intro hreadable hle
  have hall := fun index => h index hreadable hle
  have hstart {last : Nat} (halike : Alike tokens others position (position + last)) :
      Alike tokens others position position :=
    halike.mono (Nat.le_refl _) (Nat.le_add_right _ _)
  cases hrun : run (.place tokens position) with
  | ok value after =>
    simp only [hrun] at hall ⊢
    obtain ⟨kinds, rfl, hkinds, hready, hdone, -⟩ := hall given
    refine ⟨kinds, rfl, hkinds, hready, hdone, fun value last halike hlast => ?_⟩
    obtain ⟨index, hindex⟩ := hother value last hlast
    obtain ⟨kinds', hplace, -, -, -, hsame⟩ := hall index
    rw [place_inj hplace] at halike ⊢
    exact hsame value last halike (hindex (hstart halike))
  | error error after =>
    simp only [hrun] at hall ⊢
    by_cases hdeep : deep ∧ error.IsTooDeep
    · exact .inl hdeep
    obtain ⟨kinds, hkinds, hmore, hat, -⟩ := (hall given).resolve_left hdeep
    refine .inr ⟨kinds, hkinds, hmore, hat, fun value last halike hlast => ?_⟩
    obtain ⟨index, hindex⟩ := hother value last hlast
    obtain ⟨kinds', -, -, hat', hnone⟩ := (hall index).resolve_left hdeep
    have hsame : position + kinds.length = position + kinds'.length :=
      Nat.succ.inj (hat.reads.symm.trans hat'.reads)
    rw [hsame] at halike
    exact hnone value last halike (hindex (hstart halike))

/-- A value, without going anywhere. -/
theorem pure {value value' : Value} (h : wanted []) :
    Walks tokens others deep wanted (Pure.pure value) (Pure.pure value') position := by
  intro hreadable _
  refine ⟨[], rfl, .nil, hreadable, h, fun found last _ hlast => ?_⟩
  exact (pure_ok.1 hlast).2.symm

/-- What follows the first reader is watched beside what follows the second, for which it does not
matter what value the second has. -/
theorem exists_rest {kinds : List TokenKind} {value : Value} {next next' : Value → Reader Next}
    (hsame : ∀ value last, Alike tokens others position (position + kinds.length) →
      other (.place others position) = .ok value last →
      last = .place others (position + kinds.length))
    (hnext : ∀ value', Walks tokens others deep wanted (next value) (next' value')
      (position + kinds.length)) :
    ∃ rest, Walks tokens others deep wanted (next value) rest (position + kinds.length) ∧
      (Alike tokens others position (position + kinds.length) → ∀ result last,
        (other >>= next') (.place others position) = .ok result last →
          rest (.place others (position + kinds.length)) = .ok result last) := by
  by_cases halike : Alike tokens others position (position + kinds.length)
  · refine ⟨fun _ => (other >>= next') (.place others position),
      of_others next' value hnext fun result last hlast => ?_, fun _ _ _ hlast => hlast⟩
    obtain ⟨found, between, hfound, hresult⟩ := bind_ok.1 hlast
    rw [hsame found between halike hfound] at hresult
    exact ⟨found, fun _ => hresult⟩
  · exact ⟨next' value, hnext value, fun h => absurd h halike⟩

/-- A reader that goes over some tokens first and then goes on like another one, with what the other
one is watched beside. -/
theorem prepend {kinds : List TokenKind} {next rest : Reader Value}
    (hkinds : KindsAt tokens position kinds) (hready : Readable tokens (position + kinds.length))
    (hrun : run (.place tokens position) = next (.place tokens (position + kinds.length)))
    (hother : Alike tokens others position (position + kinds.length) → ∀ value last,
      other (.place others position) = .ok value last →
        rest (.place others (position + kinds.length)) = .ok value last)
    (h : Walks tokens others deep (fun more => wanted (kinds ++ more)) next rest
      (position + kinds.length)) :
    Walks tokens others deep wanted run other position := by
  intro _ hle
  have hparts {last : Nat}
      (halike : Alike tokens others position (position + kinds.length + last)) :
      Alike tokens others position (position + kinds.length) ∧
      Alike tokens others (position + kinds.length) (position + kinds.length + last) :=
    ⟨halike.mono (Nat.le_refl _) (Nat.le_add_right _ _),
      halike.mono (Nat.le_add_right _ _) (Nat.le_refl _)⟩
  have hwalk := h hready (hkinds.add_length_le hle)
  rw [hrun]
  cases hnext : next (.place tokens (position + kinds.length)) with
  | ok value after =>
    rw [hnext] at hwalk
    obtain ⟨more, rfl, hmore, hreadyMore, hdone, hsame⟩ := hwalk
    refine ⟨kinds ++ more, ?_, hkinds.append hmore, ?_, hdone, ?_⟩ <;>
      rw [List.length_append, ← Nat.add_assoc]
    · exact hreadyMore
    · intro found last halike hlast
      obtain ⟨halikeFirst, halikeRest⟩ := hparts halike
      exact hsame found last halikeRest (hother halikeFirst found last hlast)
  | error error after =>
    rw [hnext] at hwalk
    refine hwalk.imp_right ?_
    rintro ⟨more, hmore, ⟨last, hlast⟩, hat, hnone⟩
    refine ⟨kinds ++ more, hkinds.append hmore, ⟨last, by rwa [List.append_assoc]⟩, ?_, ?_⟩ <;>
      rw [List.length_append, ← Nat.add_assoc]
    · exact hat
    · intro found last halike hlast
      obtain ⟨halikeFirst, halikeRest⟩ := hparts halike
      exact hnone found last halikeRest (hother halikeFirst found last hlast)

/-- A reader and what follows it. Whatever the reader passes over, there has to be something that
completes it. -/
theorem bind {first : List TokenKind → Prop} {next next' : Value → Reader Next}
    (h : Walks tokens others deep first run other position)
    (hmore : ∀ kinds, first kinds → ∃ more, wanted (kinds ++ more))
    (hnext : ∀ value value' kinds, first kinds → Walks tokens others deep
      (fun more => wanted (kinds ++ more)) (next value) (next' value') (position + kinds.length)) :
    Walks tokens others deep wanted (run >>= next) (other >>= next') position := by
  intro hreadable hle
  have hwalk := h hreadable hle
  cases hrun : run (.place tokens position) with
  | error error after =>
    rw [hrun] at hwalk
    rw [bind_error.2 (.inl hrun)]
    refine hwalk.imp_right ?_
    rintro ⟨kinds, hkinds, ⟨rest, hrest⟩, hat, hnone⟩
    obtain ⟨more, hmore⟩ := hmore _ hrest
    rw [List.append_assoc] at hmore
    refine ⟨kinds, hkinds, ⟨_, hmore⟩, hat, fun value last halike hlast => ?_⟩
    obtain ⟨found, between, hfound, -⟩ := bind_ok.1 hlast
    exact hnone found between halike hfound
  | ok value between =>
    rw [hrun] at hwalk
    obtain ⟨kinds, rfl, hkinds, hready, hdone, hsame⟩ := hwalk
    obtain ⟨rest, hrest, hother⟩ :=
      exists_rest hsame fun value' => hnext value value' kinds hdone
    exact prepend hkinds hready (bind_of_ok hrun) hother hrest hreadable hle

/-- A reader and a function of its value. -/
theorem bind_pure {first : List TokenKind → Prop} {image image' : Value → Next}
    (h : Walks tokens others deep first run other position)
    (hwanted : ∀ kinds, first kinds → wanted kinds) :
    Walks tokens others deep wanted (run >>= fun value => Pure.pure (image value))
      (other >>= fun value => Pure.pure (image' value)) position := by
  have hdone (kinds : List TokenKind) (hkinds : first kinds) : wanted (kinds ++ []) := by
    rw [List.append_nil]
    exact hwanted kinds hkinds
  exact h.bind (fun kinds hkinds => ⟨[], hdone kinds hkinds⟩) fun _ _ kinds hkinds =>
    pure (hdone kinds hkinds)

/-- A reader that has used up its budget. -/
theorem failTooDeep (h : position ≤ tokens.length → deep) :
    Walks tokens others deep wanted Reader.failTooDeep other position :=
  fun _ hle => .inl ⟨h hle, _, _, rfl⟩

/-- A reader that fails at the token looked at. -/
theorem failExpecting {what what' : Expectation} (h : ∃ more, wanted more) :
    Walks tokens others deep wanted (Reader.failExpecting what : Reader Value)
      (Reader.failExpecting what') position := by
  intro hreadable _
  obtain ⟨error, hrun, hat⟩ := failExpecting_at Value what hreadable
  rw [hrun]
  exact .inr ⟨[], .nil, h, hat, fun value last _ hlast => failExpecting_ok.1 hlast⟩

/-- Looking at the token. Another reader sees a token of the same kind. -/
theorem current {next next' : Token → Reader Next}
    (h : ∀ token, token.kind = (Cursor.place tokens position).token.kind →
      Walks tokens others deep wanted (next (Cursor.place tokens position).token) (next' token)
        position) :
    Walks tokens others deep wanted (Reader.current >>= next) (Reader.current >>= next')
      position := by
  refine of_others (fun token : { token : Token //
      token.kind = (Cursor.place tokens position).token.kind } => next' token.1) ⟨_, rfl⟩
    (fun token => h token.1 token.2) fun value last hlast => ?_
  by_cases halike : Alike tokens others position position
  · exact ⟨⟨_, halike.kind_place (Nat.le_refl _)⟩, fun _ => hlast⟩
  · exact ⟨⟨_, rfl⟩, fun h => absurd h halike⟩

/-- Going over a valid token. -/
theorem advance {kind : TokenKind} (hkind : (Cursor.place tokens position).token.kind = kind)
    (hvalid : kind ≠ .invalid) :
    Walks tokens others deep (· = [kind]) Reader.advance Reader.advance position := by
  intro _ _
  have hkinds := KindsAt.singleton (getElem?_of_kind_place hkind hvalid)
  by_cases hreadable : Readable tokens (position + 1)
  · rw [advance_of_readable Cursor.before_place hreadable]
    refine ⟨[kind], rfl, hkinds, hreadable, rfl, fun value last halike hlast => ?_⟩
    have hother : Readable others (position + 1) := by
      rwa [Readable, ← halike (position + 1) (Nat.le_succ _) (Nat.le_refl _)]
    rw [advance_of_readable Cursor.before_place hother] at hlast
    cases hlast
    rfl
  · obtain ⟨error, after, hrun, hat⟩ := advance_of_invalid Cursor.before_place hreadable
    rw [hrun]
    refine .inr ⟨[kind], hkinds, ⟨[], rfl⟩, hat, fun value last halike hlast => ?_⟩
    have hother : ¬Readable others (position + 1) := by
      rwa [Readable, ← halike (position + 1) (Nat.le_succ _) (Nat.le_refl _)]
    obtain ⟨error, after, hrun, -⟩ := advance_of_invalid Cursor.before_place hother
    rw [hrun] at hlast
    cases hlast

/-- Going over an expected token. -/
theorem expect {kind : TokenKind} {what what' : Expectation} (hvalid : kind ≠ .invalid) :
    Walks tokens others deep (· = [kind]) (Reader.expect kind what) (Reader.expect kind what')
      position := by
  refine current fun token htoken => ?_
  rw [htoken]
  split
  · next hkind => exact bind_pure (advance hkind hvalid) fun _ => id
  · exact failExpecting ⟨_, rfl⟩

/-- Going over a valid token, and what follows. -/
theorem advance_bind {kind : TokenKind} {next next' : Unit → Reader Next}
    (hkind : (Cursor.place tokens position).token.kind = kind) (hvalid : kind ≠ .invalid)
    (hmore : ∃ more, wanted (kind :: more))
    (hnext : Walks tokens others deep (fun more => wanted (kind :: more)) (next ()) (next' ())
      (position + 1)) :
    Walks tokens others deep wanted (Reader.advance >>= next) (Reader.advance >>= next')
      position := by
  refine bind (advance hkind hvalid) ?_ ?_
  · rintro _ rfl
    exact hmore
  · rintro _ _ _ rfl
    exact hnext

/-- Going over an expected token, and what follows. -/
theorem expect_bind {kind : TokenKind} {what what' : Expectation} {next next' : Token → Reader Next}
    (hvalid : kind ≠ .invalid) (hmore : ∃ more, wanted (kind :: more))
    (hnext : ∀ token token', Walks tokens others deep (fun more => wanted (kind :: more))
      (next token) (next' token') (position + 1)) :
    Walks tokens others deep wanted (Reader.expect kind what >>= next)
      (Reader.expect kind what' >>= next') position := by
  refine bind (expect hvalid) ?_ ?_
  · rintro _ rfl
    exact hmore
  · rintro token token' _ rfl
    exact hnext token token'

/-- Looking at the tokens left, of which there are as many as there are behind the position. -/
theorem remaining {next next' : List Token → Reader Next}
    (h : ∀ bound bound' : List Token, tokens.length ≤ position + bound.length →
      others.length ≤ position + bound'.length →
      Walks tokens others deep wanted (next bound) (next' bound') position) :
    Walks tokens others deep wanted (Reader.remaining >>= next) (Reader.remaining >>= next')
      position := by
  exact h _ _ (length_le_remaining tokens) (length_le_remaining others)

/-- A loop with a bound, from some position on. The bound does not matter if it is as large as the
number of tokens left, because the loop goes over some token in every round and stops where there is
none. -/
theorem loop {first : Nat} {invariant : List TokenKind → Prop}
    {loop loop' : List Token → Reader Value} {none : Value}
    (hstop : ∀ bound cursor, cursor.token.kind = .invalid → loop bound cursor = .ok none cursor)
    (hstop' : ∀ bound cursor, cursor.token.kind = .invalid → loop' bound cursor = .ok none cursor)
    (hround : ∀ {token token' : Token} {bound bound' : List Token} {kinds : List TokenKind}
      {position : Nat}, first ≤ position → invariant kinds →
      (∀ {more : List TokenKind} {position' : Nat}, more ≠ [] →
        position' = position + more.length → invariant (kinds ++ more) →
        Walks tokens others deep (fun rest => invariant (kinds ++ more ++ rest)) (loop bound)
          (loop' bound') position') →
      Walks tokens others deep (fun more => invariant (kinds ++ more)) (loop (token :: bound))
        (loop' (token' :: bound')) position) :
    ∀ (bound bound' : List Token) (kinds : List TokenKind) (position : Nat), first ≤ position →
      invariant kinds → tokens.length ≤ position + bound.length →
      others.length ≤ position + bound'.length →
      Walks tokens others deep (fun more => invariant (kinds ++ more)) (loop bound) (loop' bound')
        position := by
  have hend {list : List Token} {position : Nat} (h : list.length ≤ position) :
      (Cursor.place list position).token.kind = .invalid := by
    rw [kind_place, List.getElem?_eq_none_iff.2 h]
    rfl
  intro bound
  induction bound with
  | nil =>
    intro bound' kinds position _ hinvariant hbound _
    have hkind : (Cursor.place tokens position).token.kind = .invalid := hend hbound
    refine of_others (fun _ : Unit => Pure.pure none) () (fun _ => ?_) ?_
    · intro hreadable _
      have hnothing : invariant (kinds ++ []) := by rwa [List.append_nil]
      rw [hstop [] _ hkind]
      exact ⟨[], rfl, .nil, hreadable, hnothing, fun _ _ _ hlast => (pure_ok.1 hlast).2.symm⟩
    · intro value last hlast
      refine ⟨(), fun halike => ?_⟩
      rwa [hstop' bound' _ ((halike.kind_place (Nat.le_refl _)).trans hkind)] at hlast
  | cons token bound ih =>
    intro bound' kinds position hfirst hinvariant hbound hbound'
    have hwalk (token' : Token) (bound' : List Token)
        (hbound' : others.length ≤ position + (bound'.length + 1)) :
        Walks tokens others deep (fun more => invariant (kinds ++ more)) (loop (token :: bound))
          (loop' (token' :: bound')) position := by
      refine hround hfirst hinvariant fun {more position'} hmore hposition hinvariant => ?_
      have hpos := List.length_pos_iff.2 hmore
      rw [List.length_cons] at hbound
      exact ih bound' (kinds ++ more) position' (by omega) hinvariant (by omega) (by omega)
    cases bound' with
    | cons token' bound' => exact hwalk token' bound' hbound'
    | nil =>
      -- There is no token left, so the second loop might as well have a larger bound.
      have hkind : (Cursor.place others position).token.kind = .invalid := hend hbound'
      refine of_others (fun _ : Unit => loop' (token :: others)) ()
        (fun _ => hwalk token others (by omega)) fun value last hlast => ⟨(), fun _ => ?_⟩
      rw [hstop' _ _ hkind] at hlast ⊢
      exact hlast

end Reader.Walks

end ThreeAddress
