import ThreeAddress.Proofs.Check.Agreement

/-!
# What the table tells of the mentions

The table after a part of the program records the mentions of names in it (`Table.Records`): which
names are declared, which of them may be assigned to and which have a value. So the table allows
what the mentions allow. Checking a tree adds its mentions to those recorded
(`Tree.Checks.records`).
-/

namespace ThreeAddress

/-! ## Records -/

/-- The mentions are in order, and the table knows of each name what they tell. -/
structure Table.Records (table : Table) (mentions : List Mention) : Prop where
  ordered : IsOrdered mentions
  mem_iff {name : String} : name ∈ table ↔ name ∈ mentions.filterMap Mention.declared?
  assignable_iff {name : String} {entry : Entry} : table.find? name = some entry →
    (entry.assignable = true ↔ ∃ hasValue, .declare name true hasValue ∈ mentions)
  known_iff {name : String} : name ∈ mentions.filterMap Mention.assigned? ↔
    ∃ entry, table.find? name = some entry ∧ entry.type ≠ .unknown

/-- The table knows the type of a name that is used. -/
def Table.Knows (table : Table) (mention : Mention) : Prop :=
  ∃ name entry, mention = .use name ∧ table.find? name = some entry ∧ entry.type ≠ .unknown

namespace Table.Records

variable {table after : Table} {mentions others : List Mention} {name : String} {type : DataType}
  {assignable hasValue : Bool}

/-- What is collected from mentions and one more. -/
theorem filterMap_concat (collect : Mention → Option String) (mention : Mention) :
    (mentions ++ [mention]).filterMap collect =
      mentions.filterMap collect ++ (collect mention).toList := by
  cases hcollect : collect mention <;> simp [hcollect]

/-- Nothing is recorded. -/
theorem empty : Table.empty.Records [] where
  ordered := .nil
  mem_iff := Iff.rfl
  assignable_iff := nofun
  known_iff := ⟨nofun, nofun⟩

/-- A name that has no entry is not mentioned in front of its declaration. -/
theorem not_mem (h : table.Records mentions) (hnew : name ∉ table) (hasValue : Bool) :
    .declare name assignable hasValue ∉ mentions :=
  fun hmem => hnew (h.mem_iff.2 (List.mem_filterMap.2 ⟨_, hmem, rfl⟩))

/-- A declaration is recorded, with whether it gives a value. -/
theorem declare (h : table.Records mentions) (hvalue : hasValue = true ↔ type ≠ .unknown)
    (hdeclare : table.declare name type assignable = .ok after) :
    after.Records (mentions ++ [.declare name assignable hasValue]) := by
  obtain ⟨isNew, rfl⟩ := declare_ok hdeclare
  have hself := find?_push_self ⟨name, type, assignable, false⟩ isNew
  have hother {other : String} (hne : other ≠ name) :
      (table.push ⟨name, type, assignable, false⟩ isNew).find? other = table.find? other :=
    find?_push_of_ne isNew hne
  refine ⟨IsOrdered.concat_iff.2 ⟨h.ordered, h.mem_iff.not.1 isNew⟩, ?_, ?_, ?_⟩
  · intro other
    rw [Table.mem_iff, names_push, filterMap_concat, List.mem_append, List.mem_append,
      ← Table.mem_iff, h.mem_iff]
    rfl
  · intro other entry hfind
    by_cases hname : other = name
    · subst hname
      rw [hself] at hfind
      cases hfind
      constructor
      · rintro rfl
        exact ⟨hasValue, List.mem_append_right _ (.head _)⟩
      · rintro ⟨hasValue', hmem⟩
        rcases List.mem_append.1 hmem with hmem | hmem
        · exact absurd hmem (h.not_mem isNew hasValue')
        · cases List.mem_singleton.1 hmem
          rfl
    · rw [hother hname] at hfind
      rw [h.assignable_iff hfind]
      simp [hname]
  · intro other
    rw [filterMap_concat, List.mem_append, h.known_iff]
    by_cases hname : other = name
    · subst hname
      have hnone : ¬∃ entry, table.find? other = some entry ∧ entry.type ≠ .unknown :=
        fun ⟨entry, hfind, _⟩ => isNew (mem_iff_find?.2 ⟨entry, hfind⟩)
      rw [hself, or_iff_right hnone]
      cases hasValue with
      | false => simpa [Mention.assigned?] using hvalue
      | true => simpa [Mention.assigned?] using hvalue
    · rw [hother hname]
      cases hasValue <;> simp [Mention.assigned?, hname]

/-- A value for a name leaves the entries of the others as they were. -/
theorem find?_resolve_of_ne {other : String} (hresolve : table.resolve name type = .ok after)
    (hne : other ≠ name) : after.find? other = table.find? other := by
  obtain ⟨_, -, ⟨-, rfl⟩ | ⟨-, -, rfl⟩⟩ := resolve_ok hresolve
  · rw [find?_setType]
    cases hfind : table.find? other with
    | none => rfl
    | some entry =>
      obtain ⟨-, rfl⟩ := mem_of_find? hfind
      rw [Option.map_some, retype, if_neg hne]
  · rfl

/-- A value for a known name is recorded. -/
theorem resolve (h : table.Records mentions) {entry : Entry}
    (hfind : table.find? name = some entry) (hassignable : entry.assignable = true)
    (htype : type ≠ .unknown) (hresolve : table.resolve name type = .ok after) :
    after.Records (mentions ++ [.reassign name]) := by
  have hgrows := grows_of_resolve hresolve
  obtain ⟨assigned, hassigned, hassignedType⟩ := find?_of_resolve hresolve
  have hmem {other : String} : other ∈ after ↔ other ∈ table := by
    by_cases hname : other = name
    · subst hname
      exact iff_of_true (mem_iff_find?.2 ⟨assigned, hassigned⟩) (mem_iff_find?.2 ⟨entry, hfind⟩)
    · rw [mem_iff_find?, mem_iff_find?, find?_resolve_of_ne hresolve hname]
  refine ⟨IsOrdered.concat_iff.2 ⟨h.ordered, (h.assignable_iff hfind).1 hassignable⟩, ?_, ?_, ?_⟩
  · intro other
    rw [hmem, h.mem_iff, filterMap_concat]
    simp [Mention.declared?]
  · intro other found hother
    obtain ⟨old, hold⟩ := mem_iff_find?.1 (hmem.1 (mem_iff_find?.2 ⟨found, hother⟩))
    obtain ⟨newType, hnew, -⟩ := hgrows other old hold
    cases hother.symm.trans hnew
    rw [h.assignable_iff hold]
    simp
  · intro other
    rw [filterMap_concat, List.mem_append, h.known_iff]
    by_cases hname : other = name
    · subst hname
      exact iff_of_true (.inr (.head _)) ⟨assigned, hassigned, hassignedType ▸ htype⟩
    · rw [find?_resolve_of_ne hresolve hname]
      simp [Mention.assigned?, hname]

/-- Uses of names that have values are recorded. -/
theorem uses (h : table.Records mentions)
    (hothers : ∀ mention ∈ others, table.Knows mention) : table.Records (mentions ++ others) := by
  induction others generalizing mentions with
  | nil => rwa [List.append_nil]
  | cons mention others ih =>
    obtain ⟨⟨name, entry, rfl, hfind, hknown⟩, hrest⟩ := List.forall_mem_cons.1 hothers
    rw [List.append_cons]
    refine ih ⟨?_, fun {other} => ?_, fun {other found} hother => ?_, fun {other} => ?_⟩ hrest
    · exact IsOrdered.concat_iff.2 ⟨h.ordered, h.known_iff.2 ⟨entry, hfind, hknown⟩⟩
    · rw [filterMap_concat, h.mem_iff]
      simp [Mention.declared?]
    · rw [h.assignable_iff hother]
      simp
    · rw [filterMap_concat, ← h.known_iff]
      simp [Mention.assigned?]

/-- Uses of names that are in order are uses of names that the table knows. -/
theorem knows (h : table.Records mentions) (hordered : IsOrdered (mentions ++ others))
    (huses : ∀ mention ∈ others, ∃ name, mention = .use name) :
    ∀ mention ∈ others, table.Knows mention := by
  induction others generalizing mentions with
  | nil => nofun
  | cons mention others ih =>
    obtain ⟨⟨name, rfl⟩, hrest⟩ := List.forall_mem_cons.1 huses
    rw [List.append_cons] at hordered
    have hused : name ∈ mentions.filterMap Mention.assigned? :=
      (IsOrdered.concat_iff.1 hordered.of_append).2
    obtain ⟨entry, hfind, hknown⟩ := h.known_iff.1 hused
    have hknows : table.Knows (.use name) := ⟨name, entry, rfl, hfind, hknown⟩
    refine List.forall_mem_cons.2 ⟨hknows, ih ?_ hordered hrest⟩
    exact h.uses (List.forall_mem_singleton.2 hknows)

end Table.Records

/-! ## Checked trees -/

namespace Tree

variable {table after : Table} {mentions : List Mention} {tree : Tree} {node : Node}

/-- The mentions of a longer row of operations. -/
theorem mentions_chain_concat (level : Level) (first right : Tree) (operations : List Tree)
    (operator : String) (operatorLine line : Line) :
    (chain level first (operations ++ [.operation operator right operatorLine]) line).mentions =
      (chain level first operations line).mentions ++ right.mentions := by
  rw [Tree.mentions, Tree.mentions, mentionsAll_append, List.append_assoc]
  simp [mentionsAll, Tree.mentions]

/-- An expression mentions only names that it uses, and the table knows their types. -/
theorem Infers.uses (h : tree.Infers table node) :
    ∀ mention ∈ tree.mentions, table.Knows mention := by
  induction h with
  | @var name line entry hfind hknown =>
    exact List.forall_mem_singleton.2 ⟨name, entry, rfl, hfind, hknown⟩
  | literal | input => nofun
  | group _ ih | minus _ _ ih | negation _ _ ih => exact ih
  | comparison _ _ _ _ _ ihLeft ihRight => exact List.forall_mem_append.2 ⟨ihLeft, ihRight⟩
  | single _ ih =>
    rw [Tree.mentions, mentionsAll, List.append_nil]
    exact ih
  | joined _ _ _ _ _ ihLeft ihRight =>
    rw [mentions_chain_concat]
    exact List.forall_mem_append.2 ⟨ihLeft, ihRight⟩

/-- An expression that is missing has no node. -/
theorem Infers.isAbsent_eq_false (h : tree.Infers table node) : tree.isAbsent = false := by
  cases h <;> rfl

/-- The mentions in arguments that have nodes. -/
theorem uses_arguments {arguments : List Tree} {nodes : List Node}
    (h : List.Forall₂ (Infers table) arguments nodes) :
    ∀ mention ∈ mentionsAll arguments, table.Knows mention := by
  induction h with
  | nil => nofun
  | cons hfirst _ ih => exact List.forall_mem_append.2 ⟨hfirst.uses, ih⟩

/-- Checking a tree adds its mentions to those that the table records. -/
theorem Checks.records {nodes : List Node} (h : tree.Checks table nodes after)
    (hrecords : table.Records mentions) : after.Records (mentions ++ tree.mentions) := by
  -- The value of a name is mentioned in front of the name.
  have hvalues {table after : Table} {mentions : List Mention} {value : Tree} {node : Node}
      {mention : Mention} (hrecords : table.Records mentions) (hvalue : value.Infers table node)
      (h : table.Records (mentions ++ value.mentions) →
        after.Records (mentions ++ value.mentions ++ [mention])) :
      after.Records (mentions ++ (value.mentions ++ [mention])) := by
    rw [← List.append_assoc]
    exact h (hrecords.uses hvalue.uses)
  induction h generalizing mentions with
  | assignment hfind hassignable hvalue hresolve =>
    exact hvalues hrecords hvalue fun h =>
      h.resolve hfind hassignable hvalue.type_ne_unknown hresolve
  | letFixed hvalue hdeclare =>
    exact hvalues hrecords hvalue fun h =>
      h.declare (iff_of_true rfl hvalue.type_ne_unknown) hdeclare
  | letUnset hdeclare => exact hrecords.declare (iff_of_false nofun fun h => h rfl) hdeclare
  | letMutable hvalue hdeclare =>
    rw [Tree.mentions, hvalue.isAbsent_eq_false]
    exact hvalues hrecords hvalue fun h =>
      h.declare (iff_of_true rfl hvalue.type_ne_unknown) hdeclare
  | ifElse htest _ _ _ _ ihBody ihTail | elseIf htest _ _ _ _ ihBody ihTail =>
    rw [Tree.mentions, ← List.append_assoc, ← List.append_assoc]
    exact ihTail (ihBody (hrecords.uses htest.uses))
  | otherwise _ ih => exact ih hrecords
  | loop htest _ _ ih =>
    rw [Tree.mentions, ← List.append_assoc]
    exact ih (hrecords.uses htest.uses)
  | output harguments => exact hrecords.uses (uses_arguments harguments)
  | noElse | nil => simpa [Tree.mentions, mentionsAll] using hrecords
  | cons _ _ _ ihStatement ihStatements =>
    rw [Tree.mentions, mentionsAll, ← List.append_assoc]
    exact ihStatements (ihStatement hrecords)

end Tree

end ThreeAddress
