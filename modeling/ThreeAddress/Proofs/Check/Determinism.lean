import ThreeAddress.Proofs.Check.Characterization

/-!
# The rules of the checker leave no choice

An expression has at most one node over a table (`Tree.Infers.det`), and a statement, a body or the
tail of a conditional leaves its nodes and changes the table in at most one way
(`Tree.Checks.det`). A chain has one node although two rules are about chains, because the one is
for chains without operations and the other takes the last operation off. So what the rules give a
program is what the checker finds, unless the nesting uses up the budget (`Tree.Checks.passes`).
-/

namespace ThreeAddress

open Check

namespace Tree

variable {table after after' : Table} {tree : Tree} {node other : Node} {nodes others : List Node}

/-- A chain without operations has the node of its first operand. -/
theorem Infers.of_single {level : Level} {first : Tree} {line : Line}
    (h : (chain level first [] line).Infers table node) : first.Infers table node := by
  generalize hoperations : [] = operations at h
  cases h with
  | single h => exact h
  | joined => exact absurd hoperations.symm (List.append_ne_nil_of_right_ne_nil _ (by simp))

/-- A chain is what stands left of its last operation, joined with the operand of that one. -/
theorem Infers.of_joined {level : Level} {first right : Tree} {operations : List Tree}
    {operator : String} {operatorLine line : Line}
    (h : (chain level first (operations ++ [.operation operator right operatorLine])
      line).Infers table node) :
    ∃ left second, (chain level first operations line).Infers table left ∧
      right.Infers table second ∧
      node = .binary operator left second
        ⟨operatorLine, level.result left.type second.type⟩ := by
  generalize hoperations : operations ++ [_] = all at h
  cases h with
  | single => exact absurd hoperations (List.append_ne_nil_of_right_ne_nil _ (by simp))
  | joined hleft hright =>
    obtain ⟨rfl, hlast⟩ := List.append_inj' hoperations rfl
    cases hlast
    exact ⟨_, _, hleft, hright, rfl⟩

/-- An expression has at most one node. -/
theorem Infers.det (h : tree.Infers table node) (h' : tree.Infers table other) :
    node = other := by
  induction h generalizing other with
  | var hfind =>
    cases h' with
    | var hfind' =>
      cases hfind.symm.trans hfind'
      rfl
  | literal hkind =>
    cases h' with
    | literal hkind' =>
      cases hkind.symm.trans hkind'
      rfl
  | input =>
    cases h'
    rfl
  | group _ ih =>
    cases h' with
    | group h' => exact ih h'
  | minus _ _ ih =>
    cases h' with
    | minus h' => rw [ih h']
  | negation _ _ ih =>
    cases h' with
    | negation h' => rw [ih h']
  | comparison _ _ _ _ _ ihLeft ihRight =>
    cases h' with
    | comparison hleft hright => rw [ihLeft hleft, ihRight hright]
  | single _ ih => exact ih h'.of_single
  | joined _ _ _ _ _ ihLeft ihRight =>
    obtain ⟨left, second, hleft, hright, rfl⟩ := h'.of_joined
    rw [ihLeft hleft, ihRight hright]

/-- Arguments have their nodes in one way at most. -/
theorem Infers.det_arguments {arguments : List Tree}
    (h : List.Forall₂ (Infers table) arguments nodes)
    (h' : List.Forall₂ (Infers table) arguments others) : nodes = others := by
  induction h generalizing others with
  | nil =>
    cases h'
    rfl
  | cons hfirst _ ih =>
    cases h' with
    | cons hfirst' h' => rw [hfirst.det hfirst', ih h']

/-- What is checked leaves its nodes and its table in one way at most. -/
theorem Checks.det (h : tree.Checks table nodes after) (h' : tree.Checks table others after') :
    nodes = others ∧ after = after' := by
  induction h generalizing others after' with
  | assignment _ _ hvalue hresolve =>
    cases h' with
    | assignment _ _ hvalue' hresolve' =>
      cases hvalue.det hvalue'
      cases hresolve.symm.trans hresolve'
      exact ⟨rfl, rfl⟩
  | letFixed hvalue hdeclare =>
    cases h' with
    | letFixed hvalue' hdeclare' =>
      cases hvalue.det hvalue'
      cases hdeclare.symm.trans hdeclare'
      exact ⟨rfl, rfl⟩
  | letUnset hdeclare =>
    cases h' with
    | letUnset hdeclare' =>
      cases hdeclare.symm.trans hdeclare'
      exact ⟨rfl, rfl⟩
    | letMutable hvalue => cases hvalue
  | letMutable hvalue hdeclare =>
    cases h' with
    | letUnset => cases hvalue
    | letMutable hvalue' hdeclare' =>
      cases hvalue.det hvalue'
      cases hdeclare.symm.trans hdeclare'
      exact ⟨rfl, rfl⟩
  | ifElse hcondition _ _ _ _ ihBody ihTail =>
    cases h' with
    | ifElse hcondition' _ hbody _ htail =>
      cases hcondition.det hcondition'
      obtain ⟨rfl, rfl⟩ := ihBody hbody
      obtain ⟨rfl, rfl⟩ := ihTail htail
      exact ⟨rfl, rfl⟩
  | elseIf hcondition _ _ _ _ ihBody ihTail =>
    cases h' with
    | elseIf hcondition' _ hbody _ htail =>
      cases hcondition.det hcondition'
      obtain ⟨rfl, rfl⟩ := ihBody hbody
      obtain ⟨rfl, rfl⟩ := ihTail htail
      exact ⟨rfl, rfl⟩
  | loop hcondition _ _ ih =>
    cases h' with
    | loop hcondition' _ hbody =>
      cases hcondition.det hcondition'
      obtain ⟨rfl, rfl⟩ := ih hbody
      exact ⟨rfl, rfl⟩
  | output harguments =>
    cases h' with
    | output harguments' =>
      cases Infers.det_arguments harguments harguments'
      exact ⟨rfl, rfl⟩
  | noElse =>
    cases h'
    exact ⟨rfl, rfl⟩
  | otherwise _ ih =>
    cases h' with
    | otherwise hbody =>
      obtain ⟨rfl, rfl⟩ := ih hbody
      exact ⟨rfl, rfl⟩
  | nil =>
    cases h'
    exact ⟨rfl, rfl⟩
  | cons _ _ _ ihStatement ihStatements =>
    cases h' with
    | cons _ hstatement hstatements =>
      obtain ⟨rfl, rfl⟩ := ihStatement hstatement
      obtain ⟨rfl, rfl⟩ := ihStatements hstatements
      exact ⟨rfl, rfl⟩

/-- The checker finds what the rules give, or the budget is used up. -/
theorem Checks.passes (h : tree.Checks .empty nodes after) (hderives : tree.Derives .program)
    (budget : Nat) : Passes tree.spelling.length budget (tree.checkProgram budget) {}
      fun root state => (∃ line, root = .program nodes ⟨some line, .void⟩) ∧
        state.table = after := by
  refine (h.isWellTyped.passes hderives budget).imp ?_ id
  rintro ⟨root, state, hrun, -⟩
  obtain ⟨_, line, rfl, hends⟩ := hderives.checkProgram_ends budget .empty
  obtain ⟨items, rfl, hitems⟩ := hends.of_ok hrun
  obtain ⟨rfl, rfl⟩ := h.det hitems
  exact ⟨_, state, hrun, ⟨line, rfl⟩, rfl⟩

end Tree

end ThreeAddress
