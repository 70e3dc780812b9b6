import ThreeAddress.Proofs.Grammar.Completeness
import ThreeAddress.Proofs.Grammar.Kinds
import ThreeAddress.Proofs.Grammar.Walk

/-!
# What the reader has passed over can be completed

The reader of a phrase walks over tokens of the phrase (`Phrase.read_walks`): where it fails, what
it has passed over is the beginning of such tokens, and a reader with another budget on tokens of
the same kinds fails there as well. There is one lemma for each rule of the grammar. To every token
that a rule goes over it names the tokens that complete the phrase.

A rule reads its parts at the token where it begins itself, or behind it. That is why each lemma
says from which position on it needs them, and what bounds the nesting: a part at the same token has
a smaller rank, and a part behind it has fewer tokens left.
-/

namespace ThreeAddress

open Sequence

namespace Reader

variable {tokens others : List Token} {deep : Prop} {position : Nat}

/-- A reader of a phrase, and another one, walk over the tokens of the phrase from some position or
any later one. -/
def WalksOver (tokens others : List Token) (deep : Prop) (first : Nat) (phrase : Phrase)
    (run other : Reader Tree) : Prop :=
  ∀ position, first ≤ position → Walks tokens others deep phrase.Spells run other position

/-- The later, the fewer positions. -/
theorem WalksOver.mono {first later : Nat} {phrase : Phrase} {run other : Reader Tree}
    (h : WalksOver tokens others deep first phrase run other) (hle : first ≤ later) :
    WalksOver tokens others deep later phrase run other :=
  fun position hlater => h position (Nat.le_trans hle hlater)

section
variable {relation relation' block block' tail tail' part part' : Reader Tree}

/-! ## Rows -/

/-- No operations begin where there is no token. -/
theorem operations_stop (level : Level) (part : Reader Tree) (bound : List Token) (cursor : Cursor)
    (h : cursor.token.kind = .invalid) : operations level part bound cursor = .ok [] cursor := by
  cases bound with
  | nil => rfl
  | cons _ bound =>
    refine bind_ok.2 ⟨cursor.token, cursor, current_ok.2 ⟨rfl, rfl⟩, ?_⟩
    rw [h]
    cases level <;> rfl

/-- The operations of a row. -/
theorem walks_operations {first : Nat} (level : Level)
    (hpart : WalksOver tokens others deep first level.part part part')
    (bound bound' : List Token) (kinds : List TokenKind) (position : Nat)
    (hfirst : first ≤ position) (h : level.row.Spells kinds)
    (hbound : tokens.length ≤ position + bound.length)
    (hbound' : others.length ≤ position + bound'.length) :
    Walks tokens others deep (fun more => level.row.Spells (kinds ++ more))
      (operations level part bound) (operations level part' bound') position := by
  refine Walks.loop (operations_stop level part) (operations_stop level part') ?_ bound bound' kinds
    position hfirst h hbound hbound'
  intro _ _ bound bound' kinds position hfirst h hloop
  refine Walks.current fun token htoken => ?_
  rw [htoken]
  split
  · next hholds =>
    have hvalid : (Cursor.place tokens position).token.kind ≠ .invalid := by
      intro hinvalid
      rw [hinvalid] at hholds
      cases level <;> cases hholds
    obtain ⟨operand, hoperand⟩ := level.part.exists_spells
    refine Walks.advance_bind rfl hvalid ⟨operand, h.joined hholds hoperand⟩ ?_
    refine (hpart _ (by omega)).bind
      (fun more hmore => ⟨[], by simpa using h.joined hholds hmore⟩) ?_
    intro _ _ more hmore
    refine Walks.bind_pure (hloop (List.cons_ne_nil _ _) ?_ (h.joined hholds hmore)) ?_
    · rw [List.length_cons]
      omega
    · intro rest hrest
      simpa using hrest
  · exact Walks.pure (by simpa using h)

/-- A row of operands. -/
theorem walks_row (level : Level)
    (hpart : WalksOver tokens others deep position level.part part part') :
    Walks tokens others deep level.row.Spells (row level part) (row level part') position := by
  refine Walks.current fun token _ => ?_
  refine (hpart position (Nat.le_refl _)).bind
    (fun kinds h => ⟨[], by simpa using .single h⟩) ?_
  intro first first' kinds h
  refine Walks.remaining fun bound bound' hbound hbound' => ?_
  refine (walks_operations level hpart bound bound' kinds _ (Nat.le_add_right _ _) (.single h)
    hbound hbound').bind (fun more hmore => ⟨[], by simpa using hmore⟩) ?_
  intro trees trees' more hmore
  cases trees <;> cases trees' <;> exact Walks.pure (by simpa using hmore)

/-! ## Programs and blocks -/

/-- No statements begin where there is no token. -/
theorem statements_stop (statement : Reader Tree) (bound : List Token) (cursor : Cursor)
    (h : cursor.token.kind = .invalid) : statements statement bound cursor = .ok [] cursor := by
  cases bound with
  | nil => rfl
  | cons _ bound =>
    refine bind_ok.2 ⟨cursor.token, cursor, current_ok.2 ⟨rfl, rfl⟩, ?_⟩
    rw [h]
    rfl

/-- The statements of a program. -/
theorem walks_statements {first : Nat}
    (hpart : WalksOver tokens others deep first .statement part part')
    (bound bound' : List Token) (kinds : List TokenKind) (position : Nat)
    (hfirst : first ≤ position) (h : Phrase.program.Spells kinds)
    (hbound : tokens.length ≤ position + bound.length)
    (hbound' : others.length ≤ position + bound'.length) :
    Walks tokens others deep (fun more => Phrase.program.Spells (kinds ++ more))
      (statements part bound) (statements part' bound') position := by
  refine Walks.loop (statements_stop part) (statements_stop part') ?_ bound bound' kinds
    position hfirst h hbound hbound'
  intro _ _ bound bound' kinds position hfirst h hloop
  -- A statement, its semicolon and the statements behind it.
  have hround : Walks tokens others deep (fun more => Phrase.program.Spells (kinds ++ more))
      (do
        let first ← part
        let _ ← expect .semicolon .semicolon
        let others ← statements part bound
        return first :: others)
      (do
        let first ← part'
        let _ ← expect .semicolon .semicolon
        let others ← statements part' bound'
        return first :: others) position := by
    refine (hpart position hfirst).bind (fun more hmore => ⟨_, h.followed hmore⟩) ?_
    intro _ _ more hmore
    refine Walks.expect_bind nofun ⟨[], h.followed hmore⟩ fun _ _ => ?_
    refine Walks.bind_pure (hloop (by simp) ?_ (h.followed hmore)) ?_
    · rw [List.length_append, Nat.add_assoc]
      rfl
    · intro rest hrest
      simpa using hrest
  refine Walks.current fun token htoken => ?_
  rw [htoken]
  generalize (Cursor.place tokens position).token.kind = kind
  cases kind with
  | ident | kwLet | kwIf | kwWhile | kwOutput => exact hround
  | _ => exact Walks.pure (by simpa using h)

/-- A program. -/
theorem walks_program (hpart : WalksOver tokens others deep position .statement part part') :
    Walks tokens others deep Phrase.program.Spells (program part) (program part') position := by
  refine Walks.current fun token _ => ?_
  refine Walks.remaining fun bound bound' hbound hbound' => ?_
  refine (walks_statements hpart bound bound' [] position (Nat.le_refl _) .nothing hbound
    hbound').bind (fun kinds h => ⟨[], by simpa using h⟩) ?_
  intro _ _ kinds h
  refine Walks.current fun token htoken => ?_
  rw [htoken]
  generalize (Cursor.place tokens _).token.kind = kind
  cases kind with
  | endOfFile | rbrace => exact Walks.pure (by simpa using h)
  | _ => exact Walks.failExpecting ⟨[], by simpa using h⟩

/-- A block. -/
theorem walks_block (hpart : WalksOver tokens others deep (position + 1) .program part part') :
    Walks tokens others deep Phrase.block.Spells (Reader.block part) (Reader.block part')
      position := by
  obtain ⟨inner, hinner⟩ := Phrase.program.exists_spells
  refine Walks.expect_bind nofun ⟨_, hinner.braced⟩ fun _ _ => ?_
  refine (hpart _ (Nat.le_refl _)).bind (fun kinds h => ⟨_, h.braced⟩) ?_
  intro _ _ kinds h
  exact Walks.expect_bind nofun ⟨[], h.braced⟩ fun _ _ => Walks.pure h.braced

/-! ## Statements -/

/-- An assignment. -/
theorem walks_assignment
    (hrelation : WalksOver tokens others deep (position + 1) .relation relation relation')
    (hkind : (Cursor.place tokens position).token.kind = .ident) :
    Walks tokens others deep Phrase.statement.Spells (assignment relation) (assignment relation')
      position := by
  obtain ⟨value, hvalue⟩ := Phrase.relation.exists_spells
  refine Walks.current fun token _ => ?_
  refine Walks.advance_bind hkind nofun ⟨_, .assignment hvalue⟩ ?_
  refine Walks.expect_bind nofun ⟨_, .assignment hvalue⟩ fun _ _ => ?_
  exact (hrelation _ (by omega)).bind_pure fun kinds h => .assignment h

/-- What follows `mut`. -/
theorem walks_mutableRest
    (hrelation : WalksOver tokens others deep position .relation relation relation')
    (line line' : Line) :
    Walks tokens others deep (fun kinds => Phrase.statement.Spells (.kwLet :: .kwMut :: kinds))
      (mutableRest relation line) (mutableRest relation' line') position := by
  obtain ⟨value, hvalue⟩ := Phrase.relation.exists_spells
  refine Walks.expect_bind nofun ⟨[], .letUnset⟩ fun _ _ => ?_
  refine Walks.current fun token htoken => ?_
  rw [htoken]
  generalize hkind : (Cursor.place tokens _).token.kind = kind
  cases kind with
  | assign =>
    refine Walks.advance_bind hkind nofun ⟨_, .letMutable hvalue⟩ ?_
    exact (hrelation _ (by omega)).bind_pure fun kinds h => .letMutable h
  | semicolon => exact Walks.pure .letUnset
  | _ => exact Walks.failExpecting ⟨[], .letUnset⟩

/-- A declaration. -/
theorem walks_declaration
    (hrelation : WalksOver tokens others deep (position + 1) .relation relation relation')
    (hkind : (Cursor.place tokens position).token.kind = .kwLet) :
    Walks tokens others deep Phrase.statement.Spells (declaration relation) (declaration relation')
      position := by
  obtain ⟨value, hvalue⟩ := Phrase.relation.exists_spells
  refine Walks.current fun token _ => ?_
  refine Walks.advance_bind hkind nofun ⟨_, .letUnset⟩ ?_
  refine Walks.current fun token htoken => ?_
  rw [htoken]
  generalize hnext : (Cursor.place tokens _).token.kind = kind
  cases kind with
  | ident =>
    refine Walks.advance_bind hnext nofun ⟨_, .letFixed hvalue⟩ ?_
    refine Walks.expect_bind nofun ⟨_, .letFixed hvalue⟩ fun _ _ => ?_
    exact (hrelation _ (by omega)).bind_pure fun kinds h => .letFixed h
  | kwMut =>
    refine Walks.advance_bind hnext nofun ⟨_, .letUnset⟩ ?_
    exact walks_mutableRest (hrelation.mono (by omega)) _ _
  | _ => exact Walks.failExpecting ⟨_, .letUnset⟩

/-- A condition, its body and what follows it, behind the tokens that open them. -/
theorem walks_guarded (opening : List TokenKind) {phrase : Phrase}
    {image image' : Tree → Tree → Tree → Tree}
    (hrelation : WalksOver tokens others deep position .relation relation relation')
    (hblock : WalksOver tokens others deep position .block block block')
    (htail : WalksOver tokens others deep position .elsePart tail tail')
    (hopening : ∀ {kinds more rest}, Phrase.relation.Spells kinds → Phrase.block.Spells more →
      Phrase.elsePart.Spells rest → phrase.Spells (opening ++ (kinds ++ (more ++ rest)))) :
    Walks tokens others deep (fun kinds => phrase.Spells (opening ++ kinds))
      (do
        let condition ← relation
        let body ← block
        let rest ← tail
        return image condition body rest)
      (do
        let condition ← relation'
        let body ← block'
        let rest ← tail'
        return image' condition body rest) position := by
  obtain ⟨body, hbody⟩ := Phrase.block.exists_spells
  refine (hrelation _ (by omega)).bind (fun kinds h => ⟨_, hopening h hbody .noElse⟩) ?_
  intro _ _ kinds h
  refine (hblock _ (by omega)).bind (fun more hmore => ⟨_, hopening h hmore .noElse⟩) ?_
  intro _ _ more hmore
  exact (htail _ (by omega)).bind_pure fun rest hrest => hopening h hmore hrest

/-- A conditional. -/
theorem walks_conditional
    (hrelation : WalksOver tokens others deep (position + 1) .relation relation relation')
    (hblock : WalksOver tokens others deep (position + 1) .block block block')
    (htail : WalksOver tokens others deep (position + 1) .elsePart tail tail')
    (hkind : (Cursor.place tokens position).token.kind = .kwIf) :
    Walks tokens others deep Phrase.statement.Spells (conditional relation block tail)
      (conditional relation' block' tail') position := by
  obtain ⟨condition, hcondition⟩ := Phrase.relation.exists_spells
  obtain ⟨body, hbody⟩ := Phrase.block.exists_spells
  refine Walks.current fun token _ => ?_
  refine Walks.advance_bind hkind nofun ⟨_, .ifElse hcondition hbody .noElse⟩ ?_
  exact walks_guarded [.kwIf] hrelation hblock htail .ifElse

/-- What follows the body of a conditional. -/
theorem walks_elsePart
    (hrelation : WalksOver tokens others deep (position + 1) .relation relation relation')
    (hblock : WalksOver tokens others deep (position + 1) .block block block')
    (htail : WalksOver tokens others deep (position + 1) .elsePart tail tail') :
    Walks tokens others deep Phrase.elsePart.Spells (elsePart relation block tail)
      (elsePart relation' block' tail') position := by
  obtain ⟨condition, hcondition⟩ := Phrase.relation.exists_spells
  obtain ⟨body, hbody⟩ := Phrase.block.exists_spells
  refine Walks.current fun token htoken => ?_
  rw [htoken]
  split
  · next hkind =>
    refine Walks.advance_bind hkind nofun ⟨_, .otherwise hbody⟩ ?_
    refine Walks.current fun token htoken => ?_
    rw [htoken]
    generalize hnext : (Cursor.place tokens _).token.kind = kind
    cases kind with
    | kwIf =>
      refine Walks.advance_bind hnext nofun ⟨_, .elseIf hcondition hbody .noElse⟩ ?_
      exact walks_guarded [.kwElse, .kwIf] (hrelation.mono (by omega)) (hblock.mono (by omega))
        (htail.mono (by omega)) .elseIf
    | lbrace => exact (hblock _ (by omega)).bind_pure fun kinds h => .otherwise h
    | _ => exact Walks.failExpecting ⟨_, .otherwise hbody⟩
  · exact Walks.pure .noElse

/-- A loop. -/
theorem walks_loop
    (hrelation : WalksOver tokens others deep (position + 1) .relation relation relation')
    (hblock : WalksOver tokens others deep (position + 1) .block block block')
    (hkind : (Cursor.place tokens position).token.kind = .kwWhile) :
    Walks tokens others deep Phrase.statement.Spells (loop relation block) (loop relation' block')
      position := by
  obtain ⟨condition, hcondition⟩ := Phrase.relation.exists_spells
  obtain ⟨body, hbody⟩ := Phrase.block.exists_spells
  refine Walks.current fun token _ => ?_
  refine Walks.advance_bind hkind nofun ⟨_, .loop hcondition hbody⟩ ?_
  refine (hrelation _ (by omega)).bind (fun kinds h => ⟨_, .loop h hbody⟩) ?_
  intro _ _ kinds h
  exact (hblock _ (by omega)).bind_pure fun more hmore => .loop h hmore

/-- No arguments begin where there is no token. -/
theorem arguments_stop (relation : Reader Tree) (bound : List Token) (cursor : Cursor)
    (h : cursor.token.kind = .invalid) : arguments relation bound cursor = .ok [] cursor := by
  cases bound with
  | nil => rfl
  | cons _ bound =>
    refine bind_ok.2 ⟨cursor.token, cursor, current_ok.2 ⟨rfl, rfl⟩, ?_⟩
    rw [h]
    rfl

/-- The arguments of a print. -/
theorem walks_arguments {first : Nat}
    (hrelation : WalksOver tokens others deep first .relation relation relation')
    (bound bound' : List Token) (kinds : List TokenKind) (position : Nat)
    (hfirst : first ≤ position) (h : Phrase.SpellsArguments kinds)
    (hbound : tokens.length ≤ position + bound.length)
    (hbound' : others.length ≤ position + bound'.length) :
    Walks tokens others deep (fun more => Phrase.SpellsArguments (kinds ++ more))
      (arguments relation bound) (arguments relation' bound') position := by
  obtain ⟨value, hvalue⟩ := Phrase.relation.exists_spells
  refine Walks.loop (arguments_stop relation) (arguments_stop relation') ?_ bound bound' kinds
    position hfirst h hbound hbound'
  intro _ _ bound bound' kinds position hfirst h hloop
  refine Walks.current fun token htoken => ?_
  rw [htoken]
  split
  · next hkind =>
    refine Walks.advance_bind hkind nofun ⟨_, .concat h hvalue⟩ ?_
    refine (hrelation _ (by omega)).bind (fun more hmore => ⟨[], by simpa using .concat h hmore⟩) ?_
    intro _ _ more hmore
    refine Walks.bind_pure (hloop (List.cons_ne_nil _ _) ?_ (.concat h hmore)) ?_
    · rw [List.length_cons]
      omega
    · intro rest hrest
      simpa using hrest
  · exact Walks.pure (by simpa using h)

/-- A print. -/
theorem walks_output
    (hrelation : WalksOver tokens others deep (position + 1) .relation relation relation')
    (hkind : (Cursor.place tokens position).token.kind = .kwOutput) :
    Walks tokens others deep Phrase.statement.Spells (output relation) (output relation')
      position := by
  refine Walks.current fun token _ => ?_
  refine Walks.advance_bind hkind nofun ⟨_, .output .nil⟩ ?_
  refine Walks.expect_bind nofun ⟨_, .output .nil⟩ fun _ _ => ?_
  refine Walks.remaining fun bound bound' hbound hbound' => ?_
  exact Walks.bind_pure
    (walks_arguments hrelation bound bound' [] _ (by omega) .nil hbound hbound')
    fun kinds h => .output h

/-- A statement of any form. -/
theorem walks_statement
    (hrelation : WalksOver tokens others deep (position + 1) .relation relation relation')
    (hblock : WalksOver tokens others deep (position + 1) .block block block')
    (htail : WalksOver tokens others deep (position + 1) .elsePart tail tail') :
    Walks tokens others deep Phrase.statement.Spells (statement relation block tail)
      (statement relation' block' tail') position := by
  refine Walks.current fun token htoken => ?_
  rw [htoken]
  generalize hkind : (Cursor.place tokens position).token.kind = kind
  cases kind with
  | ident => exact walks_assignment hrelation hkind
  | kwLet => exact walks_declaration hrelation hkind
  | kwIf => exact walks_conditional hrelation hblock htail hkind
  | kwWhile => exact walks_loop hrelation hblock hkind
  | kwOutput => exact walks_output hrelation hkind
  | _ => exact Walks.failExpecting Phrase.statement.exists_spells

/-! ## Expressions -/

/-- A negation, or a sum that is or is not compared with another. -/
theorem walks_negatable {sum sum' : Reader Tree}
    (hrelation : WalksOver tokens others deep (position + 1) .relation relation relation')
    (hsum : WalksOver tokens others deep position .sum sum sum') :
    Walks tokens others deep Phrase.negatable.Spells (negatable relation sum)
      (negatable relation' sum') position := by
  obtain ⟨inner, hinner⟩ := Phrase.relation.exists_spells
  obtain ⟨right, hright⟩ := Phrase.sum.exists_spells
  refine Walks.current fun token htoken => ?_
  rw [htoken]
  split
  · next hkind =>
    refine Walks.advance_bind hkind nofun ⟨_, .negation hinner⟩ ?_
    refine Walks.expect_bind nofun ⟨_, .negation hinner⟩ fun _ _ => ?_
    refine (hrelation _ (by omega)).bind (fun kinds h => ⟨_, .negation h⟩) ?_
    intro _ _ kinds h
    exact Walks.expect_bind nofun ⟨[], .negation h⟩ fun _ _ => Walks.pure (.negation h)
  · refine (hsum position (Nat.le_refl _)).bind (fun kinds h => ⟨[], by simpa using .plain h⟩) ?_
    intro _ _ kinds h
    refine Walks.current fun token htoken => ?_
    rw [htoken]
    split
    · next hrelational =>
      refine Walks.advance_bind rfl ?_ ⟨_, h.comparison hrelational hright⟩ ?_
      · intro hinvalid
        rw [hinvalid] at hrelational
        cases hrelational
      exact (hsum _ (by omega)).bind_pure fun more hmore => h.comparison hrelational hmore
    · exact Walks.pure (by simpa using .plain h)

/-- A factor of any form. -/
theorem walks_factor {factor factor' : Reader Tree}
    (hrelation : WalksOver tokens others deep (position + 1) .relation relation relation')
    (hfactor : WalksOver tokens others deep (position + 1) .factor factor factor') :
    Walks tokens others deep Phrase.factor.Spells (Reader.factor relation factor)
      (Reader.factor relation' factor') position := by
  obtain ⟨inner, hinner⟩ := Phrase.relation.exists_spells
  refine Walks.current fun token htoken => ?_
  rw [htoken]
  generalize hkind : (Cursor.place tokens position).token.kind = kind
  cases kind with
  | ident => exact Walks.advance_bind hkind nofun ⟨[], .var⟩ (Walks.pure .var)
  | intLit | floatLit | boolLit | charLit | stringLit =>
    exact Walks.advance_bind hkind nofun ⟨[], .literal rfl⟩ (Walks.pure (.literal rfl))
  | kwInput => exact Walks.advance_bind hkind nofun ⟨[], .input⟩ (Walks.pure .input)
  | lparen =>
    refine Walks.advance_bind hkind nofun ⟨_, .group hinner⟩ ?_
    refine (hrelation _ (by omega)).bind (fun kinds h => ⟨_, .group h⟩) ?_
    intro _ _ kinds h
    exact Walks.expect_bind nofun ⟨[], .group h⟩ fun _ _ => Walks.pure (.group h)
  | minus =>
    refine Walks.advance_bind hkind nofun ⟨_, .minus .input⟩ ?_
    exact (hfactor _ (by omega)).bind_pure fun kinds h => .minus h
  | _ => exact Walks.failExpecting ⟨_, .input⟩

end

end Reader

/-! ## All phrases -/

/-- Every phrase is walked over, and by a reader with a larger budget in the same way. The nesting
may be too deep if the budget is less than ten for every token left and the rank of the phrase: at
one token there begin no more phrases than that before it is gone over. -/
theorem Phrase.read_walks (tokens others : List Token) {budget larger : Nat} {deep : Prop}
    (h : budget ≤ larger) (phrase : Phrase) (position : Nat)
    (hdeep : budget + 10 * position < 10 * tokens.length + phrase.rank → deep) :
    Reader.Walks tokens others deep phrase.Spells (phrase.read budget) (phrase.read larger)
      position := by
  induction budget generalizing larger phrase position with
  | zero =>
    refine Reader.Walks.failTooDeep fun hle => hdeep ?_
    have hrank := phrase.rank_pos
    omega
  | succ budget ih =>
    obtain ⟨larger, rfl⟩ := Nat.exists_eq_succ_of_ne_zero (Nat.ne_zero_of_lt h)
    have hle := Nat.le_of_succ_le_succ h
    -- A part that begins at the same token has a smaller rank, one behind it has fewer tokens.
    have hhere (part : Phrase) (hrank : part.rank < phrase.rank) :
        Reader.WalksOver tokens others deep position part (part.read budget) (part.read larger) :=
      fun later hlater => ih hle part later fun hpart => hdeep (by omega)
    have hbehind (part : Phrase) : Reader.WalksOver tokens others deep (position + 1) part
        (part.read budget) (part.read larger) := by
      intro later hlater
      have hrank := part.rank_lt
      exact ih hle part later fun hpart => hdeep (by omega)
    cases phrase with
    | program => exact Reader.walks_program (hhere .statement (by decide))
    | statement =>
      exact Reader.walks_statement (hbehind .relation) (hbehind .block) (hbehind .elsePart)
    | elsePart =>
      exact Reader.walks_elsePart (hbehind .relation) (hbehind .block) (hbehind .elsePart)
    | block => exact Reader.walks_block (hbehind .program)
    | relation => exact Reader.walks_row .or (hhere .conjunction (by decide))
    | conjunction => exact Reader.walks_row .and (hhere .negatable (by decide))
    | negatable => exact Reader.walks_negatable (hbehind .relation) (hhere .sum (by decide))
    | sum => exact Reader.walks_row .sum (hhere .product (by decide))
    | product => exact Reader.walks_row .product (hhere .factor (by decide))
    | factor => exact Reader.walks_factor (hbehind .relation) (hbehind .factor)

end ThreeAddress
