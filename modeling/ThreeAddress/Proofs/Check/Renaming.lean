import Mathlib.Data.List.Nodup
import Mathlib.Logic.Embedding.Basic
import ThreeAddress.Proofs.Grammar.Renaming
import ThreeAddress.Proofs.Table.Growth
import ThreeAddress.Typed.Check

/-!
# Checking a tree with other names and on other lines

What a name is does not matter to the checker as long as different names stay different, and which
line something stands on does not matter at all. On a tree with other names and lines and a state
with the same other names it does the same (`Tree.check_echoes`): the node, the last state and the
error are the same up to names and lines.
-/

namespace ThreeAddress

/-! ## Other names -/

namespace Node

mutual
/-- A node with other names. -/
def rename (names : String → String) : Node → Node
  | absent => absent
  | bare mark => bare mark
  | program statements mark => program (renameAll names statements) mark
  | block statements mark => block (renameAll names statements) mark
  | assignment target value declares mark =>
    assignment (names target) (value.rename names) declares mark
  | output text arguments mark => output (text.rename names) (renameAll names arguments) mark
  | conditional parts mark => conditional (renameAll names parts) mark
  | loop condition body mark => loop (condition.rename names) (body.rename names) mark
  | binary operator left right mark =>
    binary operator (left.rename names) (right.rename names) mark
  | unary operator operand mark => unary operator (operand.rename names) mark
  | literal lexeme mark => literal lexeme mark
  | format lexeme mark => format lexeme mark
  | var name mark => var (names name) mark
  | input mark => input mark

/-- Nodes with other names. -/
def renameAll (names : String → String) : List Node → List Node
  | [] => []
  | node :: nodes => node.rename names :: renameAll names nodes
end

variable (names : String → String)

@[simp] theorem renameAll_eq (nodes : List Node) :
    renameAll names nodes = nodes.map (rename names) := by
  induction nodes with
  | nil => rfl
  | cons node nodes ih => rw [renameAll, ih, List.map_cons]

@[simp] theorem isAbsent_rename (node : Node) : (node.rename names).isAbsent = node.isAbsent := by
  cases node <;> rfl

@[simp] theorem type_rename (node : Node) : (node.rename names).type = node.type := by
  cases node <;> rfl

mutual
/-- The same names. -/
theorem rename_id : ∀ node : Node, node.rename id = node
  | absent | bare _ | literal .. | format .. | var .. | input _ => rfl
  | program statements _ | block statements _ => by rw [rename, renameAll_id statements]
  | assignment _ value _ _ => by rw [rename, rename_id value]; rfl
  | output text arguments _ => by rw [rename, rename_id text, renameAll_id arguments]
  | conditional parts _ => by rw [rename, renameAll_id parts]
  | loop condition body _ => by rw [rename, rename_id condition, rename_id body]
  | binary _ left right _ => by rw [rename, rename_id left, rename_id right]
  | unary _ operand _ => by rw [rename, rename_id operand]

/-- The same names. -/
theorem renameAll_id : ∀ nodes : List Node, renameAll id nodes = nodes
  | [] => rfl
  | node :: nodes => by rw [renameAll, rename_id node, renameAll_id nodes]
end

end Node

/-- What a node on another line carries. -/
def Mark.reline (lines : Line → Line) (mark : Mark) : Mark :=
  { mark with line := mark.line.map lines }

/-- The same lines. -/
theorem Mark.reline_id (mark : Mark) : mark.reline id = mark := by
  rw [reline, Option.map_id, id]

/-- What is moved to other lines twice. -/
theorem Mark.reline_reline (lines moved : Line → Line) (mark : Mark) :
    (mark.reline lines).reline moved = mark.reline fun line => moved (lines line) := by
  rw [reline, reline, reline, Option.map_map]
  rfl

namespace Node

mutual
/-- A node on other lines. -/
def reline (lines : Line → Line) : Node → Node
  | absent => absent
  | bare mark => bare (mark.reline lines)
  | program statements mark => program (relineAll lines statements) (mark.reline lines)
  | block statements mark => block (relineAll lines statements) (mark.reline lines)
  | assignment target value declares mark =>
    assignment target (value.reline lines) declares (mark.reline lines)
  | output text arguments mark =>
    output (text.reline lines) (relineAll lines arguments) (mark.reline lines)
  | conditional parts mark => conditional (relineAll lines parts) (mark.reline lines)
  | loop condition body mark =>
    loop (condition.reline lines) (body.reline lines) (mark.reline lines)
  | binary operator left right mark =>
    binary operator (left.reline lines) (right.reline lines) (mark.reline lines)
  | unary operator operand mark => unary operator (operand.reline lines) (mark.reline lines)
  | literal lexeme mark => literal lexeme (mark.reline lines)
  | format lexeme mark => format lexeme (mark.reline lines)
  | var name mark => var name (mark.reline lines)
  | input mark => input (mark.reline lines)

/-- Nodes on other lines. -/
def relineAll (lines : Line → Line) : List Node → List Node
  | [] => []
  | node :: nodes => node.reline lines :: relineAll lines nodes
end

variable (lines : Line → Line)

@[simp] theorem relineAll_eq (nodes : List Node) :
    relineAll lines nodes = nodes.map (reline lines) := by
  induction nodes with
  | nil => rfl
  | cons node nodes ih => rw [relineAll, ih, List.map_cons]

@[simp] theorem isAbsent_reline (node : Node) : (node.reline lines).isAbsent = node.isAbsent := by
  cases node <;> rfl

@[simp] theorem type_reline (node : Node) : (node.reline lines).type = node.type := by
  cases node <;> rfl

mutual
/-- The same lines. -/
theorem reline_id : ∀ node : Node, node.reline id = node
  | absent => rfl
  | bare mark | literal _ mark | format _ mark | var _ mark | input mark => by
    rw [reline, mark.reline_id]
  | program statements mark | block statements mark => by
    rw [reline, relineAll_id statements, mark.reline_id]
  | assignment _ value _ mark => by rw [reline, reline_id value, mark.reline_id]
  | output text arguments mark => by
    rw [reline, reline_id text, relineAll_id arguments, mark.reline_id]
  | conditional parts mark => by rw [reline, relineAll_id parts, mark.reline_id]
  | loop condition body mark => by
    rw [reline, reline_id condition, reline_id body, mark.reline_id]
  | binary _ left right mark => by rw [reline, reline_id left, reline_id right, mark.reline_id]
  | unary _ operand mark => by rw [reline, reline_id operand, mark.reline_id]

/-- The same lines. -/
theorem relineAll_id : ∀ nodes : List Node, relineAll id nodes = nodes
  | [] => rfl
  | node :: nodes => by rw [relineAll, reline_id node, relineAll_id nodes]
end

mutual
/-- A node that is moved to other lines twice. -/
theorem reline_reline (moved : Line → Line) : ∀ node : Node,
    (node.reline lines).reline moved = node.reline fun line => moved (lines line)
  | absent => rfl
  | bare mark | literal _ mark | format _ mark | var _ mark | input mark => by
    simp only [reline, Mark.reline_reline]
  | program statements mark | block statements mark => by
    simp only [reline, Mark.reline_reline, relineAll_relineAll moved statements]
  | assignment _ value _ mark => by
    simp only [reline, Mark.reline_reline, reline_reline moved value]
  | output text arguments mark => by
    simp only [reline, Mark.reline_reline, reline_reline moved text,
      relineAll_relineAll moved arguments]
  | conditional parts mark => by
    simp only [reline, Mark.reline_reline, relineAll_relineAll moved parts]
  | loop condition body mark => by
    simp only [reline, Mark.reline_reline, reline_reline moved condition, reline_reline moved body]
  | binary _ left right mark => by
    simp only [reline, Mark.reline_reline, reline_reline moved left, reline_reline moved right]
  | unary _ operand mark => by
    simp only [reline, Mark.reline_reline, reline_reline moved operand]

/-- Nodes that are moved to other lines twice. -/
theorem relineAll_relineAll (moved : Line → Line) : ∀ nodes : List Node,
    relineAll moved (relineAll lines nodes) = relineAll (fun line => moved (lines line)) nodes
  | [] => rfl
  | node :: nodes => by
    simp only [relineAll, reline_reline moved node, relineAll_relineAll moved nodes]
end

/-- A node with other names and on other lines. -/
def revise (names : String → String) (lines : Line → Line) (node : Node) : Node :=
  (node.rename names).reline lines

variable (names : String → String)

/-- Nodes with other names and on other lines. -/
theorem reviseAll_eq (nodes : List Node) :
    relineAll lines (renameAll names nodes) = nodes.map (revise names lines) := by
  rw [relineAll_eq, renameAll_eq, List.map_map]
  rfl

@[simp] theorem isAbsent_revise (node : Node) :
    (node.revise names lines).isAbsent = node.isAbsent := by
  rw [revise, isAbsent_reline, isAbsent_rename]

@[simp] theorem type_revise (node : Node) : (node.revise names lines).type = node.type := by
  rw [revise, type_reline, type_rename]

end Node

/-- An entry under another name. -/
def Entry.rename (names : String → String) (entry : Entry) : Entry :=
  { entry with name := names entry.name }

/-- The names of entries under other names. -/
theorem Entry.map_name_rename (names : String → String) (entries : List Entry) :
    (entries.map (rename names)).map (·.name) = (entries.map (·.name)).map names := by
  rw [List.map_map, List.map_map]
  rfl

/-- An error about another name. -/
def TableError.rename (names : String → String) : TableError → TableError
  | alreadyDeclared name => alreadyDeclared (names name)
  | notDeclared name => notDeclared (names name)
  | typeMismatch name assigned held => typeMismatch (names name) assigned held
  | temporaryClash name => temporaryClash (names name)

/-- An error about another name. -/
def CheckError.rename (change : String → String) : CheckError → CheckError
  | names error line => names (error.rename change) line
  | fixedName name line => fixedName (change name) line
  | unassigned name line => unassigned (change name) line
  | notBool operator found line => notBool operator found line
  | notArithmetic operator found line => notArithmetic operator found line
  | notCondition statement found line => notCondition statement found line
  | stringValue line => stringValue line
  | rootForm => rootForm
  | noRule form => noRule form
  | literalKind kind => literalKind kind
  | noPart => noPart
  | tooDeep => tooDeep

/-- The same names. -/
theorem CheckError.rename_id (error : CheckError) : error.rename id = error := by
  cases error with
  | names error line => cases error <;> rfl
  | _ => rfl

/-- An error on another line. -/
def CheckError.reline (lines : Line → Line) : CheckError → CheckError
  | names error line => names error (lines line)
  | fixedName name line => fixedName name (lines line)
  | unassigned name line => unassigned name (lines line)
  | notBool operator found line => notBool operator found (lines line)
  | notArithmetic operator found line => notArithmetic operator found (lines line)
  | notCondition statement found line => notCondition statement found (lines line)
  | stringValue line => stringValue (lines line)
  | rootForm => rootForm
  | noRule form => noRule form
  | literalKind kind => literalKind kind
  | noPart => noPart
  | tooDeep => tooDeep

/-- The same lines. -/
theorem CheckError.reline_id (error : CheckError) : error.reline id = error := by
  cases error <;> rfl

/-- An error about another name and on another line. -/
def CheckError.revise (names : String → String) (lines : Line → Line) (error : CheckError) :
    CheckError :=
  (error.rename names).reline lines

/-! ## The table -/

namespace Table

/-- A table with other names. -/
def rename (names : String ↪ String) (table : Table) : Table where
  entries := table.entries.map (Entry.rename names)
  distinct := by
    rw [Entry.map_name_rename]
    exact List.Nodup.map names.injective table.distinct

/-- The same names. -/
theorem rename_refl (table : Table) : table.rename (.refl String) = table := by
  have hentry : Entry.rename (Function.Embedding.refl String) = id := rfl
  cases table
  simp only [rename, hentry, List.map_id]

variable (names : String ↪ String) (table : Table) {name : String} {type : DataType}

/-- The names of a table with other names. -/
theorem names_rename : (table.rename names).names = table.names.map names :=
  Entry.map_name_rename names table.entries

/-- A name is in a table iff its other name is in the table with other names. -/
theorem mem_rename : names name ∈ table.rename names ↔ name ∈ table := by
  rw [mem_iff, names_rename, List.mem_map_of_injective names.injective, mem_iff]

/-- The entry of another name. -/
theorem find?_rename (name : String) : (table.rename names).find? (names name) =
    (table.find? name).map (Entry.rename names) := by
  rw [find?, rename, List.find?_map, find?]
  have hname : (fun entry : Entry => entry.name == names name) ∘ Entry.rename names =
      fun entry => entry.name == name :=
    funext fun entry => by simp [Entry.rename]
  rw [hname]

/-- Looking up another name. -/
theorem lookup_rename (name : String) : (table.rename names).lookup (names name) =
    match table.lookup name with
    | .ok entry => .ok (entry.rename names)
    | .error error => .error (error.rename names) := by
  rw [lookup, find?_rename, lookup]
  cases table.find? name <;> rfl

/-- Declaring another name. -/
theorem declare_rename (name : String) (type : DataType) (assignable : Bool) :
    (table.rename names).declare (names name) type assignable =
      match table.declare name type assignable with
      | .ok after => .ok (after.rename names)
      | .error error => .error (error.rename names) := by
  by_cases hknown : name ∈ table
  · rw [declare, dif_pos ((mem_rename names table).2 hknown), declare, dif_pos hknown]
    rfl
  · rw [declare, dif_neg ((mem_rename names table).not.2 hknown), declare, dif_neg hknown]
    simp [push, rename, Entry.rename]

/-- A type for another name. -/
theorem setType_rename (name : String) (type : DataType) :
    (table.rename names).setType (names name) type = (table.setType name type).rename names := by
  have hentry (entry : Entry) : retype (names name) type (entry.rename names) =
      (retype name type entry).rename names := by
    have hname : (entry.rename names).name = names name ↔ entry.name = name :=
      names.injective.eq_iff
    rw [retype, retype, if_congr hname rfl rfl]
    split <;> rfl
  simp [setType, rename, Function.comp_def, hentry]

/-- A value for another name. -/
theorem resolve_rename (name : String) (type : DataType) :
    (table.rename names).resolve (names name) type =
      match table.resolve name type with
      | .ok after => .ok (after.rename names)
      | .error error => .error (error.rename names) := by
  have hlookup := table.lookup_rename names name
  cases hfound : table.lookup name with
  | error error =>
    rw [hfound] at hlookup
    rw [resolve, hlookup, resolve, hfound]
    rfl
  | ok entry =>
    rw [hfound] at hlookup
    have htype : (entry.rename names).type = entry.type := rfl
    rw [resolve_eq hlookup, resolve_eq hfound, htype, setType_rename]
    by_cases hunknown : entry.type = .unknown
    · rw [if_pos hunknown, if_pos hunknown]
    · rw [if_neg hunknown, if_neg hunknown]
      by_cases hheld : entry.type = type
      · rw [if_pos hheld, if_pos hheld]
      · rw [if_neg hheld, if_neg hheld]
        rfl

end Table

/-- A state with other names. -/
def CheckState.rename (names : String ↪ String) (state : CheckState) : CheckState :=
  { state with table := state.table.rename names }

/-- The same names. -/
theorem CheckState.rename_refl (state : CheckState) : state.rename (.refl String) = state := by
  rw [rename, Table.rename_refl]

/-! ## Checks side by side -/

/-- The second check does on a state with other names what the first one does, on other lines. -/
def Check.Echoes {Value Other : Type} (names : String ↪ String) (lines : Line → Line)
    (image : Value → Other) (run : Check Value) (other : Check Other) : Prop :=
  ∀ state, other (state.rename names) = match run state with
    | .ok value after => .ok (image value) (after.rename names)
    | .error error after => .error (error.revise names lines) (after.rename names)

namespace Check

namespace Echoes

variable {names : String ↪ String} {lines : Line → Line} {Value Other Next NextOther : Type}
  {image : Value → Other} {imageNext : Next → NextOther} {run : Check Value} {other : Check Other}

/-- A plain value. -/
theorem pure {value : Value} {value' : Other} (h : value' = image value) :
    Echoes names lines image (Pure.pure value) (Pure.pure value') := by
  subst h
  exact fun _ => rfl

/-- A failure. -/
theorem throw {error error' : CheckError} (h : error' = error.revise names lines) :
    Echoes names lines image (throw error) (throw error') := by
  subst h
  exact fun _ => rfl

/-- A check and what follows it. -/
theorem bind {next : Value → Check Next} {next' : Other → Check NextOther}
    (h : Echoes names lines image run other)
    (hnext : ∀ value, Echoes names lines imageNext (next value) (next' (image value))) :
    Echoes names lines imageNext (run >>= next) (other >>= next') := by
  intro state
  have hrun := h state
  show EStateM.bind other next' (state.rename names) = match EStateM.bind run next state with
    | .ok value after => _
    | .error error after => _
  unfold EStateM.bind
  rw [hrun]
  cases run state with
  | ok value after => exact hnext value after
  | error error after => rfl

/-- Looking at the state. -/
theorem get {next : CheckState → Check Next} {next' : CheckState → Check NextOther}
    (h : ∀ state, Echoes names lines imageNext (next state) (next' (state.rename names))) :
    Echoes names lines imageNext (get >>= next) (get >>= next') :=
  fun state => h state state

/-- Changing the state. -/
theorem modify {change : CheckState → CheckState}
    (h : ∀ state, change (state.rename names) = (change state).rename names) :
    Echoes names lines id (modify change) (modify change) := by
  intro state
  show EStateM.Result.ok PUnit.unit (change (state.rename names)) = _
  rw [h]
  rfl

/-- One block deeper. -/
theorem deeper (h : Echoes names lines image run other) :
    Echoes names lines image (deeper run) (deeper other) := by
  intro state
  have hrun := h { state with depth := state.depth + 1 }
  have hstate : ({ state with depth := state.depth + 1 } : CheckState).rename names =
      { state.rename names with depth := state.depth + 1 } := rfl
  rw [hstate] at hrun
  have hdepth : (state.rename names).depth = state.depth := rfl
  rw [Check.deeper, Check.deeper, hdepth, hrun]
  cases run { state with depth := state.depth + 1 } <;> rfl

end Echoes

variable {names : String ↪ String} {lines : Line → Line}

/-- A change of the table for a statement. -/
theorem updateTable_echoes (line : Line) {change change' : Table → Except TableError Table}
    (h : ∀ table, change' (table.rename names) = match change table with
      | .ok after => .ok (after.rename names)
      | .error error => .error (error.rename names)) :
    Echoes names lines id (updateTable line change) (updateTable (lines line) change') := by
  refine .get fun state => ?_
  show Echoes names lines id (match change state.table with
    | .ok table => _
    | .error error => _) (match change' (state.table.rename names) with
    | .ok table => _
    | .error error => _)
  rw [h]
  cases change state.table with
  | ok table => exact fun _ => rfl
  | error error => exact .throw rfl

/-- The entry of a name. -/
theorem entry_echoes (name : String) (line : Line) :
    Echoes names lines (Entry.rename names) (entry name line)
      (entry (names name) (lines line)) := by
  refine .get fun state => ?_
  show Echoes names lines _ (match state.table.lookup name with
    | .ok entry => _
    | .error error => _) (match (state.table.rename names).lookup (names name) with
    | .ok entry => _
    | .error error => _)
  rw [Table.lookup_rename]
  cases state.table.lookup name with
  | ok entry => exact .pure rfl
  | error error => exact .throw rfl

/-- The type of a checked part. -/
theorem typeOf_echoes (node : Node) :
    Echoes names lines id (typeOf node) (typeOf (node.revise names lines)) := by
  rw [typeOf, typeOf, Node.isAbsent_revise, Node.type_revise]
  split
  · exact .throw rfl
  · exact .pure rfl

/-- A check of the type of a part, which fails with an error without names. -/
theorem require_echoes (node : Node) {accepts : DataType → Prop} [DecidablePred accepts]
    {error error' : DataType → CheckError}
    (herror : ∀ type, error' type = (error type).revise names lines) :
    Echoes names lines id
      (do let type ← typeOf node; if accepts type then Pure.pure () else throw (error type))
      (do let type ← typeOf (node.revise names lines)
          if accepts type then Pure.pure () else throw (error' type)) := by
  refine (typeOf_echoes node).bind fun type => ?_
  show Echoes names lines id (if accepts type then _ else _) (if accepts type then _ else _)
  split
  · exact .pure rfl
  · exact .throw (herror type)

/-- An operation of a level. -/
theorem operation_echoes (level : Level) (operator : String) (left right : Node) (line : Line) :
    Echoes names lines (Node.revise names lines) (operation level operator left right line)
      (operation level operator (left.revise names lines) (right.revise names lines)
        (lines line)) := by
  have hlogical : Echoes names lines (Node.revise names lines) (logical operator left right line)
      (logical operator (left.revise names lines) (right.revise names lines) (lines line)) :=
    (require_echoes left fun _ => rfl).bind fun _ =>
      (require_echoes right fun _ => rfl).bind fun _ => .pure rfl
  have harithmetic : Echoes names lines (Node.revise names lines)
      (arithmetic operator left right line)
      (arithmetic operator (left.revise names lines) (right.revise names lines) (lines line)) := by
    refine (require_echoes left fun _ => rfl).bind fun _ =>
      (require_echoes right fun _ => rfl).bind fun _ => .pure ?_
    rw [Node.type_revise, Node.type_revise]
    rfl
  cases level with
  | or | and => exact hlogical
  | sum | product => exact harithmetic

/-- A comparison. -/
theorem relational_echoes (operator : String) (left right : Node) (line : Line) :
    Echoes names lines (Node.revise names lines) (relational operator left right line)
      (relational operator (left.revise names lines) (right.revise names lines) (lines line)) :=
  (require_echoes left fun _ => rfl).bind fun _ =>
    (require_echoes right fun _ => rfl).bind fun _ => .pure rfl

/-- A negative. -/
theorem minus_echoes (operand : Node) (line : Line) :
    Echoes names lines (Node.revise names lines) (minus operand line)
      (minus (operand.revise names lines) (lines line)) := by
  refine (require_echoes operand fun _ => rfl).bind fun _ => .pure ?_
  rw [Node.type_revise]
  rfl

/-- A name in an expression. -/
theorem reference_echoes (name : String) (line : Line) :
    Echoes names lines (Node.revise names lines) (reference name line)
      (reference (names name) (lines line)) := by
  refine (entry_echoes name line).bind fun entry => ?_
  show Echoes names lines _ (if entry.type = .unknown then _ else _)
    (if entry.type = .unknown then _ else _)
  split
  · exact .throw rfl
  · exact .pure rfl

/-- A literal has no names. -/
theorem literal_echoes (kind : TokenKind) (lexeme : String) (line : Line) :
    Echoes names lines (Node.revise names lines) (literal kind lexeme line)
      (literal kind lexeme (lines line)) := by
  unfold literal
  split
  · exact .throw rfl
  · exact .throw rfl
  · exact .pure rfl

/-- A declaration. -/
theorem declaration_echoes (name : String) (value : Node) (assignable : Bool) (line : Line) :
    Echoes names lines (Node.revise names lines) (declaration name value assignable line)
      (declaration (names name) (value.revise names lines) assignable (lines line)) :=
  (typeOf_echoes value).bind fun type =>
    (updateTable_echoes line fun table => table.declare_rename names name type assignable).bind
      fun _ => .pure rfl

/-- A name that may be assigned to. -/
theorem requireAssignable_echoes (name : String) (line : Line) :
    Echoes names lines id (requireAssignable name line)
      (requireAssignable (names name) (lines line)) := by
  refine (entry_echoes name line).bind fun entry => ?_
  show Echoes names lines _ (if entry.assignable then _ else _) (if entry.assignable then _ else _)
  split
  · exact .pure rfl
  · exact .throw rfl

/-- An assignment. -/
theorem assignment_echoes (name : String) (value : Node) (line : Line) :
    Echoes names lines (Node.revise names lines) (assignment name value line)
      (assignment (names name) (value.revise names lines) (lines line)) :=
  (typeOf_echoes value).bind fun type =>
    (updateTable_echoes line fun table => table.resolve_rename names name type).bind
      fun _ => .pure rfl

/-- The statements of a block. -/
theorem blockNode_revise (depth : Nat) (statements : List Node) (line : Line) :
    blockNode depth (statements.map (Node.revise names lines)) (lines line) =
      (blockNode depth statements line).revise names lines := by
  unfold blockNode
  rw [← Node.reviseAll_eq]
  split <;> rfl

/-- A statement in front of others. -/
theorem consStatement_revise (node : Node) (others : List Node) :
    consStatement (node.revise names lines) (others.map (Node.revise names lines)) =
      (consStatement node others).map (Node.revise names lines) := by
  unfold consStatement
  rw [Node.isAbsent_revise]
  split <;> rfl

end Check

/-! ## The checker -/

namespace Tree

open Check

variable {names : String ↪ String} {lines : Line → Line} {budget : Nat}

/-- Trees are checked alike one level below. -/
def ChecksAlike (names : String ↪ String) (lines : Line → Line) (budget : Nat) : Prop :=
  ∀ tree : Tree, Echoes names lines (Node.revise names lines) (tree.check budget)
    ((tree.revise names lines).check budget)

/-- Statements one after the other. -/
theorem ChecksAlike.statements (h : ChecksAlike names lines budget) (trees : List Tree) :
    Echoes names lines (List.map (Node.revise names lines)) (checkStatements trees budget)
      (checkStatements (trees.map (revise names lines)) budget) := by
  induction trees with
  | nil => exact .pure rfl
  | cons tree trees ih =>
    refine (h tree).bind fun node => ?_
    have hcount : Echoes names lines id countStatement countStatement := .modify fun _ => rfl
    refine hcount.bind fun _ => ih.bind fun others => .pure ?_
    exact consStatement_revise node others

/-- The arguments of a print. -/
theorem ChecksAlike.all (h : ChecksAlike names lines budget) (trees : List Tree) :
    Echoes names lines (List.map (Node.revise names lines)) (checkAll trees budget)
      (checkAll (trees.map (revise names lines)) budget) := by
  induction trees with
  | nil => exact .pure rfl
  | cons tree trees ih => exact (h tree).bind fun _ => ih.bind fun _ => .pure rfl

/-- A body under a condition, and what follows. -/
theorem ChecksAlike.guarded (h : ChecksAlike names lines budget) (condition body : Tree)
    (statement : String) (line : Line) {Next NextOther : Type} {image : Next → NextOther}
    {next : Node → Node → Check Next} {next' : Node → Node → Check NextOther}
    (hnext : ∀ test node, Echoes names lines image (next test node)
      (next' (test.revise names lines) (node.revise names lines))) :
    Echoes names lines image
      (do
        let test ← condition.check budget
        requireCondition test statement line
        let node ← body.check budget
        next test node)
      (do
        let test ← (condition.revise names lines).check budget
        requireCondition test statement (lines line)
        let node ← (body.revise names lines).check budget
        next' test node) :=
  (h condition).bind fun test => (require_echoes test fun _ => rfl).bind fun _ =>
    (h body).bind fun node => hnext test node

/-- What follows the body of a conditional. -/
theorem ChecksAlike.tail (h : ChecksAlike names lines budget) : ∀ tail : Tree,
    Echoes names lines (List.map (Node.revise names lines)) (tail.checkTail budget)
      ((tail.revise names lines).checkTail budget)
  | .ifElse condition body tail line | .elseIf condition body tail line =>
    h.guarded condition body "if" line fun _ _ => (h.tail tail).bind fun _ => .pure rfl
  | .otherwise body _ => (h body).bind fun _ => .pure rfl
  | .absent | .bare _ | .block .. | .assignment .. | .letFixed .. | .letMutable .. | .loop ..
  | .output .. | .operation .. | .chain .. | .comparison .. | .negation .. | .var ..
  | .literal .. | .input _ | .group .. | .minus .. => .pure rfl

/-- The operations of a chain. -/
theorem ChecksAlike.operations (h : ChecksAlike names lines budget) (level : Level) (left : Node)
    (trees : List Tree) :
    Echoes names lines (Node.revise names lines) (checkOperations level left trees budget)
      (checkOperations level (left.revise names lines) (trees.map (revise names lines))
        budget) := by
  induction trees generalizing left with
  | nil => exact .pure rfl
  | cons tree trees ih =>
    cases tree with
    | operation operator operand line =>
      exact (h operand).bind fun right =>
        (operation_echoes level operator left right line).bind fun joined => ih joined
    | minus operand line => exact (h operand).bind fun _ => .throw rfl
    | _ => exact .throw rfl

/-- The checker does the same with other names and on other lines. -/
theorem check_echoes (names : String ↪ String) (lines : Line → Line) (budget : Nat) :
    ChecksAlike names lines budget := by
  induction budget with
  | zero =>
    intro tree
    have hzero (tree : Tree) : tree.check 0 = throw .tooDeep := by cases tree <;> rfl
    rw [hzero, hzero]
    exact .throw rfl
  | succ budget ih =>
    intro tree
    cases tree with
    | absent | bare | elseIf | otherwise | operation => exact .throw rfl
    | block statements line =>
      have hblock (depth depth' : Nat) (hdepth : depth' = depth) :
          Echoes names lines (Node.revise names lines)
            (do let items ← deeper (checkStatements statements budget)
                return blockNode depth items line)
            (do let items ← deeper
                  (checkStatements (relineAll lines (renameAll names statements)) budget)
                return blockNode depth' items (lines line)) := by
        subst hdepth
        rw [reviseAll_eq]
        exact (ih.statements statements).deeper.bind fun items =>
          .pure (blockNode_revise depth' items line)
      exact .get fun state => hblock state.depth _ rfl
    | assignment name value line =>
      exact (requireAssignable_echoes name line).bind fun _ => (ih value).bind fun node =>
        assignment_echoes name node line
    | letFixed name value line =>
      exact (ih value).bind fun node => declaration_echoes name node false line
    | letMutable name value line =>
      have hvalue : Echoes names lines (Node.revise names lines)
          (do let node ← value.check budget; declaration name node true line)
          (do let node ← (value.revise names lines).check budget
              declaration (names name) node true (lines line)) :=
        (ih value).bind fun node => declaration_echoes name node true line
      cases value with
      | absent =>
        exact (updateTable_echoes line fun table =>
          table.declare_rename names name .unknown true).bind fun _ => .pure rfl
      | _ => exact hvalue
    | ifElse condition body tail line =>
      refine ih.guarded condition body "if" line fun test node =>
        (ih.tail tail).bind fun parts => .pure ?_
      rw [← Node.reviseAll_eq]
      rfl
    | loop condition body line =>
      exact ih.guarded condition body "while" line fun _ _ => .pure rfl
    | output text arguments line =>
      rw [revise, rename, reline, reviseAll_eq]
      refine (ih.all arguments).bind fun nodes => .pure ?_
      rw [← Node.reviseAll_eq]
      rfl
    | chain level first operations line =>
      rw [revise, rename, reline, reviseAll_eq]
      exact (ih first).bind fun left => ih.operations level left operations
    | comparison left joined line =>
      cases joined with
      | operation operator right operatorLine =>
        exact (ih left).bind fun first => (ih right).bind fun second =>
          relational_echoes operator first second operatorLine
      | minus operand => exact (ih left).bind fun _ => (ih operand).bind fun _ => .throw rfl
      | _ => exact (ih left).bind fun _ => .throw rfl
    | negation operand line =>
      exact (ih operand).bind fun node =>
        (require_echoes node fun _ => rfl).bind fun _ => .pure rfl
    | var name line => exact reference_echoes name line
    | literal kind lexeme line => exact literal_echoes kind lexeme line
    | input line => exact .pure rfl
    | group inner line => exact ih inner
    | minus operand line => exact (ih operand).bind fun node => minus_echoes node line

/-- A program with other names and on other lines is checked alike. -/
theorem checkProgram_echoes (names : String ↪ String) (lines : Line → Line) (budget : Nat)
    (tree : Tree) :
    Echoes names lines (Node.revise names lines) (tree.checkProgram budget)
      ((tree.revise names lines).checkProgram budget) := by
  cases tree with
  | block statements line => exact check_echoes names lines budget (.block statements line)
  | _ => exact .throw rfl

/-- A program with other names is checked to the node or the error with the other names. -/
theorem checkProgram_renamed (names : String ↪ String) (budget : Nat) (tree : Tree)
    (state : CheckState) :
    (tree.rename names).checkProgram budget (state.rename names) =
      match tree.checkProgram budget state with
      | .ok root after => .ok (root.rename names) (after.rename names)
      | .error error after => .error (error.rename names) (after.rename names) := by
  have hechoes := checkProgram_echoes names id budget tree state
  rw [revise, reline_id] at hechoes
  rw [hechoes]
  cases tree.checkProgram budget state with
  | ok root after => simp only [Node.revise, Node.reline_id]
  | error error after => simp only [CheckError.revise, CheckError.reline_id]

/-- A program on other lines is checked to the node or the error on the other lines. -/
theorem checkProgram_relined (lines : Line → Line) (budget : Nat) (tree : Tree)
    (state : CheckState) :
    (tree.reline lines).checkProgram budget state =
      match tree.checkProgram budget state with
      | .ok root after => .ok (root.reline lines) after
      | .error error after => .error (error.reline lines) after := by
  have hechoes := checkProgram_echoes (.refl String) lines budget tree state
  rw [revise, Function.Embedding.coe_refl, rename_id, CheckState.rename_refl] at hechoes
  rw [hechoes]
  cases tree.checkProgram budget state with
  | ok root after => simp only [Node.revise, Node.rename_id, CheckState.rename_refl]
  | error error after => simp only [CheckError.revise, CheckError.rename_id, CheckState.rename_refl]

end Tree

end ThreeAddress
