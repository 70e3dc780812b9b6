import Mathlib.Algebra.BigOperators.Group.List.Basic
import ThreeAddress.Proofs.Code.Layout
import ThreeAddress.Proofs.Code.Operands

/-!
# The size of code

How much code a checked tree becomes, and how many temporaries it takes, is a sum over its nodes.
The sum is told once, for any prices that the kinds of instructions and the temporaries may have
(`Node.Lowers.isPriced`): with a price for prints only it is the number of prints, with one price
for all instructions it is the length of the code.
-/

namespace ThreeAddress

/-- What the kinds of instructions cost, and what a temporary costs. -/
structure Prices where
  copy : Nat := 0
  operation : Nat := 0
  jump : Nat := 0
  branch : Nat := 0
  label : Nat := 0
  param : Nat := 0
  call : String → Nat := fun _ => 0
  temporary : Nat := 0

namespace Prices

variable (prices : Prices)

/-- The price of an instruction. -/
def ofInstruction : Instruction → Nat
  | .assign _ _ operator _ => if operator.isSome then prices.operation else prices.copy
  | .jump _ => prices.jump
  | .branch .. => prices.branch
  | .label _ => prices.label
  | .param _ => prices.param
  | .call function _ _ => prices.call function

/-- The price of code. -/
def ofCode (code : List Instruction) : Nat := (code.map prices.ofInstruction).sum

/-- The price of what stands around a body under a condition. -/
def ofBranch : Nat := prices.branch + 2 * prices.jump + 2 * prices.label

/-- The price of a node, its parts aside. -/
def ofNode : Node → Nat
  | .assignment .. => prices.copy
  | .output _ arguments _ => (arguments.length + 1) * prices.param + prices.call "printf"
  | .conditional parts _ => (Node.branches parts).length * prices.ofBranch + prices.label
  | .loop .. => prices.label + prices.ofBranch
  | .binary .. | .unary .. => prices.operation + prices.temporary
  | .input _ => prices.call "input" + prices.temporary
  | .absent | .bare _ | .program .. | .block .. | .literal .. | .format .. | .var .. => 0

/-- The price of code and more code. -/
@[simp] theorem ofCode_append (code others : List Instruction) :
    prices.ofCode (code ++ others) = prices.ofCode code + prices.ofCode others := by
  rw [ofCode, List.map_append, List.sum_append]
  rfl

@[simp] theorem ofCode_nil : prices.ofCode [] = 0 := rfl

/-- The price of an instruction and more code. -/
@[simp] theorem ofCode_cons (instruction : Instruction) (code : List Instruction) :
    prices.ofCode (instruction :: code) = prices.ofInstruction instruction + prices.ofCode code :=
  List.sum_cons

/-- The price of parameters. -/
@[simp] theorem ofCode_params (operands : List String) :
    prices.ofCode (operands.map .param) = operands.length * prices.param := by
  induction operands with
  | nil => exact (Nat.zero_mul _).symm
  | cons operand operands ih =>
    rw [List.map_cons, ofCode_cons, ih, List.length_cons, Nat.succ_mul, Nat.add_comm]
    rfl

/-! ### Trees -/

section
variable (operator name : String) (node left right : Node) (nodes : List Node) (mark : Mark)

/-- The price of trees. -/
def ofTrees : Nat := (nodes.map (Node.total prices.ofNode)).sum

/-- A tree costs what its root costs and what its subtrees cost. -/
theorem total_eq : node.total prices.ofNode = prices.ofNode node + prices.ofTrees node.children :=
  Node.total_eq prices.ofNode node

@[simp] theorem ofTrees_nil : prices.ofTrees [] = 0 := rfl

@[simp] theorem ofTrees_cons :
    prices.ofTrees (node :: nodes) = node.total prices.ofNode + prices.ofTrees nodes :=
  List.sum_cons

@[simp] theorem total_unary : (Node.unary operator node mark).total prices.ofNode =
    prices.operation + prices.temporary + node.total prices.ofNode :=
  prices.total_eq (.unary operator node mark)

@[simp] theorem total_binary : (Node.binary operator left right mark).total prices.ofNode =
    prices.operation + prices.temporary +
      (left.total prices.ofNode + right.total prices.ofNode) :=
  prices.total_eq (.binary operator left right mark)

@[simp] theorem total_assignment (declares : Bool) :
    (Node.assignment name node declares mark).total prices.ofNode =
      prices.copy + node.total prices.ofNode :=
  prices.total_eq (.assignment name node declares mark)

@[simp] theorem total_output (formatMark : Mark) :
    (Node.output (.format name formatMark) nodes mark).total prices.ofNode =
      (nodes.length + 1) * prices.param + prices.call "printf" + prices.ofTrees nodes := by
  simp [total_eq _ (.output ..), total_eq _ (.format ..), ofNode, Node.children]

@[simp] theorem total_conditional : (Node.conditional nodes mark).total prices.ofNode =
    (Node.branches nodes).length * prices.ofBranch + prices.label + prices.ofTrees nodes :=
  prices.total_eq (.conditional nodes mark)

@[simp] theorem total_loop : (Node.loop left right mark).total prices.ofNode =
    prices.label + prices.ofBranch + (left.total prices.ofNode + right.total prices.ofNode) :=
  prices.total_eq (.loop left right mark)

@[simp] theorem total_block :
    (Node.block nodes mark).total prices.ofNode = prices.ofTrees nodes :=
  (prices.total_eq (.block nodes mark)).trans (Nat.zero_add _)

end

/-- The price of a list of nodes: that of their trees, and for the parts of a conditional that of
what stands around them. -/
def ofNodes : Shape → List Node → Nat
  | .statements, nodes => prices.ofTrees nodes
  | .parts _, nodes => (Node.branches nodes).length * prices.ofBranch + prices.ofTrees nodes

end Prices

/-- Code and the temporaries that have been taken for it cost so much. -/
def IsPriced (prices : Prices) (before after : Table) (code : List Instruction) (cost : Nat) :
    Prop :=
  prices.ofCode code + after.temporaries.length * prices.temporary =
    before.temporaries.length * prices.temporary + cost

namespace IsPriced

variable {prices : Prices} {before between after : Table} {code others : List Instruction}
  {cost more : Nat}

/-- Code that takes no temporaries. -/
theorem of_code (table : Table) (code : List Instruction) :
    IsPriced prices table table code (prices.ofCode code) := Nat.add_comm _ _

/-- Code and more code. -/
theorem append (h : IsPriced prices before between code cost)
    (h' : IsPriced prices between after others more) :
    IsPriced prices before after (code ++ others) (cost + more) := by
  rw [IsPriced] at h h' ⊢
  rw [Prices.ofCode_append]
  omega

/-- Instructions in front of code. -/
theorem behind (code : List Instruction) (h : IsPriced prices before after others more) :
    IsPriced prices before after (code ++ others) (prices.ofCode code + more) :=
  (of_code before code).append h

/-- An instruction that stores a value in a new temporary. -/
theorem store {name : String} {type : DataType} (h : before.addTemporary name type = .ok after)
    (instruction : Instruction) : IsPriced prices before after [instruction]
      (prices.ofInstruction instruction + prices.temporary) := by
  rw [IsPriced, (Table.temporaries_of_addTemporary h).1, List.length_append, List.length_singleton,
    Nat.succ_mul, Prices.ofCode_cons, Prices.ofCode_nil]
  omega

/-- The cost in other words. -/
theorem of_eq (h : IsPriced prices before after code cost) (heq : cost = more) :
    IsPriced prices before after code more := heq ▸ h

/-- A body under a condition, and the code behind it. -/
theorem guarded {tested left : Table} {body : List Instruction} {inner rest : Nat}
    (htest : IsPriced prices before tested code cost)
    (hbody : IsPriced prices tested left body inner)
    (hrest : IsPriced prices left after others rest) (operand inside exit goal : String) :
    IsPriced prices before after
      (code ++ (.branch operand inside :: .jump exit :: .label inside ::
        (body ++ (.jump goal :: .label exit :: others))))
      (prices.ofBranch + (cost + inner + rest)) := by
  have hinner := hbody.append (.behind [.jump goal, .label exit] hrest)
  have hall := htest.append (.behind [.branch operand inside, .jump exit, .label inside] hinner)
  refine hall.of_eq ?_
  simp only [Prices.ofCode_cons, Prices.ofCode_nil, Prices.ofInstruction, Prices.ofBranch]
  omega

end IsPriced

namespace Node

open Prices

variable {table after : Table} {node : Node} {nodes : List Node} {code : List Instruction}
  {operand : String} {operands : List String}

/-- The code of an expression costs what its nodes cost. -/
theorem Computes.isPriced (h : node.Computes table code operand after) (prices : Prices) :
    IsPriced prices table after code (node.total prices.ofNode) := by
  induction h with
  | literal | var => exact .of_code _ []
  | input htable => exact .store htable _
  | unary _ htable ih =>
    refine (ih.append (.store htable _)).of_eq ?_
    simp only [total_unary, ofInstruction, Option.isSome_some, if_true]
    omega
  | binary _ _ htable ihLeft ihRight =>
    refine (ihLeft.append (ihRight.append (.store htable _))).of_eq ?_
    simp only [total_binary, ofInstruction, Option.isSome_some, if_true]
    omega

/-- The code of arguments costs what their nodes cost, and every argument has an operand. -/
theorem ComputesAll.isPriced (h : ComputesAll table nodes code operands after) (prices : Prices) :
    IsPriced prices table after code (prices.ofTrees nodes) ∧ operands.length = nodes.length := by
  induction h with
  | nil => exact ⟨.of_code _ [], rfl⟩
  | cons hnode _ ih => exact ⟨(hnode.isPriced prices).append ih.1, congrArg Nat.succ ih.2⟩

/-- The code of statements, or of the parts of a conditional, costs what their nodes cost. -/
theorem Lowers.isPriced {supply after : Supply} {shape : Shape}
    (h : Lowers supply shape nodes code after) (prices : Prices) :
    IsPriced prices supply.table after.table code (prices.ofNodes shape nodes) := by
  induction h with
  | nil => exact .of_code _ []
  | noElse => exact IsPriced.of_eq (.of_code _ []) (by simp [ofNodes, branches])
  | assignment hvalue _ ih =>
    refine ((hvalue.isPriced prices).append (.behind [_] ih)).of_eq ?_
    simp only [ofNodes, ofTrees_cons, total_assignment, ofCode_cons, ofCode_nil, ofInstruction,
      Option.isSome_none, Bool.false_eq_true, if_false]
    omega
  | output harguments _ ih =>
    obtain ⟨hcode, hlength⟩ := harguments.isPriced prices
    refine (hcode.append (.behind _ (.behind [_] ih))).of_eq ?_
    simp only [ofNodes, ofTrees_cons, total_output, List.map_cons, ofCode_cons, ofCode_params,
      ofCode_nil, ofInstruction, hlength, Nat.succ_mul]
    omega
  | conditional _ _ ihParts ihNodes =>
    refine (ihParts.append (.behind [_] ihNodes)).of_eq ?_
    simp only [ofNodes, ofTrees_cons, total_conditional, ofCode_cons, ofCode_nil, ofInstruction]
    omega
  | loop hcondition _ _ ihBody ihNodes =>
    have hguarded := (hcondition.isPriced prices).guarded ihBody ihNodes
    refine (IsPriced.behind [_] (hguarded _ _ _ _)).of_eq ?_
    simp only [ofNodes, ofTrees_cons, total_loop, total_block, ofCode_cons, ofCode_nil,
      ofInstruction]
    omega
  | otherwise _ ih => exact ih.of_eq (by simp [ofNodes, branches])
  | branch hcondition _ _ ihBody ihParts =>
    refine ((hcondition.isPriced prices).guarded ihBody ihParts _ _ _ _).of_eq ?_
    simp only [ofNodes, ofTrees_cons, total_block, branches, List.length_cons, Nat.succ_mul]
    omega

/-! ## Sizes -/

/-- Whether a node takes a temporary: an operator or an input. -/
def takesTemporary : Node → Bool
  | binary .. | unary .. | input _ => true
  | _ => false

/-- Whether a node is a print. -/
def isOutput : Node → Bool
  | output .. => true
  | _ => false

/-- Whether a node is an input. -/
def isInput : Node → Bool
  | input _ => true
  | _ => false

/-- How many instructions a statement takes, its parts aside: a print takes one for each argument,
one for its format text and the call, a conditional one for its end and five for every condition. -/
def instructionCount : Node → Nat
  | assignment .. => 1
  | output _ arguments _ => arguments.length + 2
  | conditional parts _ => 5 * (branches parts).length + 1
  | loop .. => 6
  | _ => 0

/-- A sum of zeros and ones counts nodes. -/
theorem total_toNat (node : Node) (counts : Node → Bool) :
    node.total (fun part => (counts part).toNat) = node.preorder.countP counts := by
  rw [total]
  induction node.preorder with
  | nil => rfl
  | cons part parts ih =>
    rw [List.map_cons, List.sum_cons, ih, List.countP_cons]
    cases counts part <;> simp [Nat.add_comm]

/-- A sum of sums. -/
theorem total_add (node : Node) (weight other : Node → Nat) :
    node.total (fun part => weight part + other part) = node.total weight + node.total other :=
  List.sum_map_add

end Node

/-- Instructions of some kind are counted by a price for this kind. -/
theorem Prices.ofCode_toNat {prices : Prices} {counts : Instruction → Bool}
    (h : ∀ instruction, prices.ofInstruction instruction = (counts instruction).toNat)
    (code : List Instruction) : prices.ofCode code = code.countP counts := by
  induction code with
  | nil => rfl
  | cons instruction code ih =>
    rw [ofCode_cons, ih, h, List.countP_cons]
    cases counts instruction <;> simp [Nat.add_comm]

namespace Node

open Prices

/-- What the code of a program costs that is lowered over a table without temporaries. Instructions
of a kind are counted by a price for this kind. -/
theorem Lowers.cost {supply after : Supply} {items : List Node} {code : List Instruction}
    (h : Lowers supply .statements items code after) (hnone : supply.table.temporaries = [])
    (mark : Mark) (prices : Prices) (counts : Instruction → Bool) (weight : Node → Nat)
    (hcode : ∀ instruction, prices.ofInstruction instruction = (counts instruction).toNat)
    (hnode : ∀ node, prices.ofNode node = weight node) :
    code.countP counts + after.table.temporaries.length * prices.temporary =
      (program items mark).total weight := by
  have hpriced := h.isPriced prices
  rw [IsPriced, hnone, List.length_nil, Nat.zero_mul, Nat.zero_add] at hpriced
  rw [← ofCode_toNat hcode, hpriced, ← funext hnode, Prices.total_eq]
  exact (Nat.zero_add _).symm

/-- Every operator and every input of a program takes a temporary; every print is a call that
prints, and every input one that reads; and the rest of the code is that of the statements. -/
theorem Lowers.sizes {supply after : Supply} {items : List Node} {code : List Instruction}
    (h : Lowers supply .statements items code after) (hnone : supply.table.temporaries = [])
    (mark : Mark) :
    let root := program items mark
    after.table.temporaries.length = root.preorder.countP takesTemporary ∧
      code.countP (·.calls "printf") = root.preorder.countP isOutput ∧
      code.countP (·.calls "input") = root.preorder.countP isInput ∧
      code.length = root.preorder.countP takesTemporary + root.total instructionCount := by
  intro root
  have hcalls (name : String) (instruction : Instruction) :
      Prices.ofInstruction { call := fun function => (function == name).toNat } instruction =
        (instruction.calls name).toNat := by
    cases instruction <;> simp [ofInstruction, Instruction.calls]
  have htemporaries := h.cost hnone mark { temporary := 1 } (fun _ => false)
    (fun node => node.takesTemporary.toNat)
    (fun instruction => by cases instruction <;> simp [ofInstruction])
    (fun node => by cases node <;> simp [ofNode, ofBranch, takesTemporary])
  have hprints := h.cost hnone mark _ _ (fun node => node.isOutput.toNat) (hcalls "printf")
    (fun node => by cases node <;> simp [ofNode, ofBranch, isOutput])
  have hreads := h.cost hnone mark _ _ (fun node => node.isInput.toNat) (hcalls "input")
    (fun node => by cases node <;> simp [ofNode, ofBranch, isInput])
  have hlength := h.cost hnone mark ⟨1, 1, 1, 1, 1, 1, fun _ => 1, 0⟩ (fun _ => true)
    (fun node => node.takesTemporary.toNat + node.instructionCount)
    (fun instruction => by cases instruction <;> simp [ofInstruction])
    (fun node => by
      cases node <;> simp [ofNode, ofBranch, takesTemporary, instructionCount, Nat.mul_comm])
  simp only [total_toNat, List.countP_false, Function.const_apply, Nat.mul_one, Nat.zero_add]
    at htemporaries
  simp only [total_toNat, Nat.mul_zero, Nat.add_zero] at hprints hreads
  simp only [total_add, total_toNat, List.countP_true, Nat.mul_zero, Nat.add_zero] at hlength
  exact ⟨htemporaries, hprints, hreads, hlength⟩

end Node

end ThreeAddress
