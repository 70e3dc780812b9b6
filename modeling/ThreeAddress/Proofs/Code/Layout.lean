import Mathlib.Algebra.GroupWithZero.Nat
import ThreeAddress.Proofs.Code.Judgement

/-!
# The layout of labels and jumps

Lowering a node of any form, whether or not the checker would leave it, lays code out in one way:
the code of the parts in their order, and in between instructions that are neither labels nor
jumps, except that conditionals and loops place labels and jump to them (`Node.LaysOut`). From
this it follows which labels are placed and jumped to (`Node.LaysOut.placed`,
`Node.LaysOut.jumped`) and which jumps go back (`Node.LaysOut.returns`).
-/

namespace ThreeAddress

open Instruction

/-! ## Jumps back -/

namespace Instruction

/-- The instructions in code that jump to a label in front of them; some labels have been placed
before the code. -/
def jumpsBack : List String → List Instruction → List Instruction
  | _, [] => []
  | placed, instruction :: code =>
    (if ∃ goal ∈ instruction.goal?, goal ∈ placed then [instruction] else []) ++
      jumpsBack (placed ++ instruction.label?.toList) code

variable {placed front : List String} {code others : List Instruction}

/-- The jumps back in code and in more code, for which the labels in the first are placed. -/
theorem jumpsBack_append : jumpsBack placed (code ++ others) =
    jumpsBack placed code ++ jumpsBack (placed ++ labels code) others := by
  induction code generalizing placed with
  | nil => simp [jumpsBack]
  | cons instruction code ih => simp [jumpsBack, ih]

/-- Code does not jump back to labels that it does not jump to. -/
theorem jumpsBack_of_disjoint (h : ∀ goal ∈ goals code, goal ∉ front) :
    jumpsBack front code = jumpsBack [] code := by
  suffices hall : ∀ placed, jumpsBack (front ++ placed) code = jumpsBack placed code by
    simpa using hall []
  induction code with
  | nil => exact fun _ => rfl
  | cons instruction code ih =>
    intro placed
    rw [goals_cons, List.forall_mem_append] at h
    have hgoal : (∃ goal ∈ instruction.goal?, goal ∈ front ++ placed) ↔
        ∃ goal ∈ instruction.goal?, goal ∈ placed :=
      exists_congr fun goal => and_congr_right fun hmem => by
        rw [List.mem_append, or_iff_right (h.1 goal (Option.mem_toList.2 hmem))]
    rw [jumpsBack, jumpsBack, List.append_assoc, ih h.2]
    simp only [hgoal]

/-- Code without jumps does not jump back. -/
theorem jumpsBack_of_goals (h : goals code = []) : jumpsBack placed code = [] := by
  induction code generalizing placed with
  | nil => rfl
  | cons instruction code ih =>
    rw [goals_cons, List.append_eq_nil_iff] at h
    rw [jumpsBack, ih h.2, if_neg (by simp [Option.toList_eq_nil_iff.1 h.1])]
    rfl

/-- A jump to a label in front of it is among the jumps back. -/
theorem mem_jumpsBack {goal : String} {instruction : Instruction} {position : Nat}
    (hinstruction : code[position]? = some instruction) (hgoal : instruction.goal? = some goal)
    (hplaced : goal ∈ placed ∨ ∃ start < position, code[start]? = some (.label goal)) :
    instruction ∈ jumpsBack placed code := by
  induction code generalizing placed position with
  | nil => simp at hinstruction
  | cons head code ih =>
    rw [jumpsBack, List.mem_append]
    cases position with
    | zero =>
      obtain rfl : head = instruction := by simpa using hinstruction
      obtain hplaced : goal ∈ placed := by simpa using hplaced
      exact .inl (by simp [hgoal, hplaced])
    | succ position =>
      rw [List.getElem?_cons_succ] at hinstruction
      refine .inr (ih hinstruction ?_)
      rcases hplaced with hplaced | ⟨start, hlt, hlabel⟩
      · exact .inl (List.mem_append_left _ hplaced)
      cases start with
      | zero =>
        obtain rfl : head = .label goal := by simpa using hlabel
        exact .inl (by simp [label?])
      | succ start => exact .inr ⟨start, Nat.lt_of_succ_lt_succ hlt, by simpa using hlabel⟩

end Instruction

namespace Node

/-! ## Counting nodes -/

/-- The sum of a number for each node of a tree. -/
def total (weight : Node → Nat) (node : Node) : Nat := (node.preorder.map weight).sum

/-- The sum over a tree is that at its root and those over its subtrees. -/
theorem total_eq (weight : Node → Nat) (node : Node) :
    node.total weight = weight node + (node.children.map (total weight)).sum := by
  have hall (nodes : List Node) : ((Outline.preorderAll (outlines nodes)).map weight).sum =
      (nodes.map (total weight)).sum := by
    induction nodes with
    | nil => rfl
    | cons first others ih =>
      rw [outlines, Outline.preorderAll, List.map_append, List.sum_append, ih]
      rfl
  rw [total, preorder, outline_eq, Outline.preorder, List.map_cons, List.sum_cons, hall]

/-- Whether a node is a loop. -/
def isLoop : Node → Bool
  | loop .. => true
  | _ => false

/-- How many loops there are in a tree. -/
def loops (node : Node) : Nat := node.preorder.countP isLoop

/-- The loops in a tree are its root, if this is one, and those in its subtrees. -/
theorem loops_eq (node : Node) :
    node.loops = node.isLoop.toNat + (node.children.map loops).sum := by
  have htotal : loops = total fun part => part.isLoop.toNat := by
    funext node
    rw [loops, total]
    induction node.preorder with
    | nil => rfl
    | cons part parts ih =>
      rw [List.map_cons, List.sum_cons, ← ih, List.countP_cons]
      cases part.isLoop <;> simp [Nat.add_comm]
  rw [htotal, total_eq]

/-- How many labels a node takes: a loop takes three, a conditional one for its end and two for
every condition. -/
def labelCount : Node → Nat
  | loop .. => 3
  | conditional parts _ => 2 * (branches parts).length + 1
  | _ => 0

/-- How many labels a list of nodes takes beside those of its nodes. -/
def ownLabelCount : Shape → List Node → Nat
  | .statements, _ => 0
  | .parts _, nodes => 2 * (branches nodes).length

/-! ## Rules -/

/-- How the code of nodes of any form is laid out, after so many labels, and how many labels there
are afterwards. -/
inductive LaysOut : Nat → Shape → List Node → List Instruction → Nat → Prop where
  | nil {first : Nat} : LaysOut first .statements [] [] first
  | append {first between last : Nat} {nodes others : List Node} {code rest : List Instruction} :
      LaysOut first .statements nodes code between →
      LaysOut between .statements others rest last →
      LaysOut first .statements (nodes ++ others) (code ++ rest) last
  | plain {first last : Nat} {node : Node} {code own : List Instruction} :
      node.labelCount = 0 → LaysOut first .statements node.children code last →
      Instruction.labels own = [] → Instruction.goals own = [] →
      LaysOut first .statements [node] (code ++ own) last
  | conditional {first last : Nat} {parts : List Node} (mark : Mark) {code : List Instruction} :
      branches parts ≠ [] →
      LaysOut (first + 1) (.parts (Labels.nameOf (first + 1))) parts code last →
      LaysOut first .statements [.conditional parts mark]
        (code ++ [.label (Labels.nameOf (first + 1))]) last
  | loop {first tested last : Nat} {condition body : Node} (mark : Mark) (operand : String)
      {test inner : List Instruction} :
      LaysOut (first + 3) .statements [condition] test tested →
      LaysOut tested .statements [body] inner last →
      LaysOut first .statements [.loop condition body mark]
        (.label (Labels.nameOf (first + 1)) :: (test ++
          (.branch operand (Labels.nameOf (first + 2)) :: .jump (Labels.nameOf (first + 3)) ::
            .label (Labels.nameOf (first + 2)) :: (inner ++
              [.jump (Labels.nameOf (first + 1)), .label (Labels.nameOf (first + 3))])))) last
  | noElse {first : Nat} {final : String} : LaysOut first (.parts final) [] [] first
  | otherwise {first last : Nat} {final : String} {body : Node} {code : List Instruction} :
      LaysOut first .statements [body] code last → LaysOut first (.parts final) [body] code last
  | branch {first tested between last : Nat} {final : String} {condition body : Node}
      {parts : List Node} (operand : String) {test inner others : List Instruction} :
      LaysOut first .statements [condition] test tested →
      LaysOut (tested + 2) .statements [body] inner between →
      LaysOut between (.parts final) parts others last →
      LaysOut first (.parts final) (condition :: body :: parts)
        (test ++ (.branch operand (Labels.nameOf (tested + 1)) ::
          .jump (Labels.nameOf (tested + 2)) :: .label (Labels.nameOf (tested + 1)) ::
            (inner ++ (.jump final :: .label (Labels.nameOf (tested + 2)) :: others)))) last

/-- The code of a node without parts. -/
theorem LaysOut.leaf {node : Node} {own : List Instruction} (hplain : node.labelCount = 0)
    (hchildren : node.children = []) (hlabels : Instruction.labels own = [])
    (hgoals : Instruction.goals own = []) (first : Nat) :
    LaysOut first .statements [node] own first := by
  have hparts : LaysOut first .statements node.children [] first := hchildren ▸ .nil
  exact .plain hplain hparts hlabels hgoals

/-! ## Labels and jumps -/

variable {first last : Nat} {shape : Shape} {nodes : List Node} {code : List Instruction}

/-- The labels in code have numbers of its range. -/
theorem IsLabelled.mem_labels (h : IsLabelled first last shape code) {name : String}
    (hname : name ∈ Instruction.labels code) :
    ∃ number, first < number ∧ number ≤ last ∧ name = Labels.nameOf number := by
  obtain ⟨numbers, hnumbers, -, hrange⟩ := h.numbers
  rw [hnumbers] at hname
  obtain ⟨number, hnumber, rfl⟩ := List.mem_map.1 hname
  exact ⟨number, (hrange number hnumber).1, (hrange number hnumber).2, rfl⟩

/-- The jumps of code go to labels with numbers of its range, or to the end of the conditional that
it belongs to. -/
theorem IsLabelled.mem_goals (h : IsLabelled first last shape code) {goal : String}
    (hgoal : goal ∈ Instruction.goals code) : shape = .parts goal ∨
      ∃ number, first < number ∧ number ≤ last ∧ goal = Labels.nameOf number :=
  (h.goals goal hgoal).symm.imp_right h.mem_labels

/-- The jumps back in code are so many, and go to different labels with numbers of a range. -/
def Returns (first last count : Nat) (code : List Instruction) : Prop :=
  ∃ tops : List Nat, Instruction.jumpsBack [] code = tops.map (fun top =>
      .jump (Labels.nameOf top)) ∧ tops.Nodup ∧ (∀ top ∈ tops, first < top ∧ top ≤ last) ∧
    tops.length = count

namespace Returns

variable {between count more : Nat} {others : List Instruction}

/-- Code that does not jump back. -/
theorem of_none (h : Instruction.jumpsBack [] code = []) : Returns first last 0 code :=
  ⟨[], h, .nil, nofun, rfl⟩

/-- A larger range. -/
theorem wider (h : Returns first last count code) {first' last' : Nat} (hfirst : first' ≤ first)
    (hlast : last ≤ last') : Returns first' last' count code := by
  obtain ⟨tops, hjumps, hnodup, hrange, hcount⟩ := h
  refine ⟨tops, hjumps, hnodup, fun top htop => ?_, hcount⟩
  exact ⟨Nat.lt_of_le_of_lt hfirst (hrange top htop).1, Nat.le_trans (hrange top htop).2 hlast⟩

/-- Code, and code behind it that does not jump into the first. -/
theorem append (h : Returns first between count code) (h' : Returns between last more others)
    (hfirst : first ≤ between) (hlast : between ≤ last)
    (hapart : ∀ goal ∈ Instruction.goals others, goal ∉ Instruction.labels code) :
    Returns first last (count + more) (code ++ others) := by
  obtain ⟨tops, hjumps, hnodup, hrange, rfl⟩ := h
  obtain ⟨tops', hjumps', hnodup', hrange', rfl⟩ := h'
  refine ⟨tops ++ tops', ?_, ?_, ?_, List.length_append⟩
  · rw [jumpsBack_append, List.nil_append, jumpsBack_of_disjoint hapart, hjumps, hjumps',
      List.map_append]
  · grind
  · grind

/-- Code between a label and the jump to it. -/
theorem closed {exit : String} (h : Returns (first + 1) last count code)
    (hapart : Labels.nameOf (first + 1) ∉ Instruction.goals code) (hle : first < last) :
    Returns first last (count + 1) (.label (Labels.nameOf (first + 1)) ::
      (code ++ [.jump (Labels.nameOf (first + 1)), .label exit])) := by
  obtain ⟨tops, hjumps, hnodup, hrange, rfl⟩ := h
  refine ⟨tops ++ [first + 1], ?_, ?_, ?_, List.length_append⟩
  · have hback : Instruction.jumpsBack [Labels.nameOf (first + 1)] code = _ :=
      (jumpsBack_of_disjoint (by grind)).trans hjumps
    simp [Instruction.jumpsBack, jumpsBack_append, goal?, label?, hback]
  · grind
  · grind

end Returns

namespace LaysOut

/-- What is laid out is labelled. -/
theorem isLabelled (h : LaysOut first shape nodes code last) :
    IsLabelled first last shape code := by
  induction h with
  | nil | noElse => exact .of_nil rfl rfl
  | otherwise _ ih =>
    exact ⟨ih.le, ih.numbers, fun goal hgoal => (ih.goals goal hgoal).imp_right nofun⟩
  | append _ _ ihFirst ihOthers =>
    obtain ⟨hle₁, ⟨numbers₁, hnumbers₁, hnodup₁, hrange₁⟩, hgoals₁⟩ := ihFirst
    obtain ⟨hle₂, ⟨numbers₂, hnumbers₂, hnodup₂, hrange₂⟩, hgoals₂⟩ := ihOthers
    refine ⟨by omega, ⟨numbers₁ ++ numbers₂, ?_, ?_, ?_⟩, ?_⟩
    · simp [hnumbers₁, hnumbers₂]
    · grind
    · grind
    · simp only [goals_append, labels_append]
      grind
  | plain _ _ hlabels hgoals ih =>
    obtain ⟨hle, ⟨numbers, hnumbers, hnodup, hrange⟩, hgoals'⟩ := ih
    refine ⟨hle, ⟨numbers, ?_, hnodup, hrange⟩, ?_⟩
    · simp [hnumbers, hlabels]
    · simpa [hlabels, hgoals] using hgoals'
  | @conditional first _ _ _ _ _ _ ih =>
    obtain ⟨hle, ⟨numbers, hnumbers, hnodup, hrange⟩, hgoals⟩ := ih
    refine ⟨by omega, ⟨numbers ++ [first + 1], ?_, ?_, ?_⟩, ?_⟩
    · simp [hnumbers, label?]
    · grind
    · grind
    · simp only [goals_append, goals_cons, goals_nil, goal?, labels_append, labels_cons, labels_nil,
        label?]
      grind
  | @loop first _ _ _ _ _ _ _ _ _ _ ihCondition ihBody =>
    obtain ⟨hle₁, ⟨numbers₁, hnumbers₁, hnodup₁, hrange₁⟩, hgoals₁⟩ := ihCondition
    obtain ⟨hle₂, ⟨numbers₂, hnumbers₂, hnodup₂, hrange₂⟩, hgoals₂⟩ := ihBody
    refine ⟨by omega, ⟨(first + 1) :: (numbers₁ ++ (first + 2) :: (numbers₂ ++ [first + 3])), ?_,
      ?_, ?_⟩, ?_⟩
    · simp [hnumbers₁, hnumbers₂, label?]
    · grind
    · grind
    · simp only [goals_append, goals_cons, goals_nil, goal?, labels_append, labels_cons, labels_nil,
        label?]
      grind
  | @branch _ tested _ _ _ _ _ _ _ _ _ _ _ _ _ ihCondition ihBody ihParts =>
    obtain ⟨hle₁, ⟨numbers₁, hnumbers₁, hnodup₁, hrange₁⟩, hgoals₁⟩ := ihCondition
    obtain ⟨hle₂, ⟨numbers₂, hnumbers₂, hnodup₂, hrange₂⟩, hgoals₂⟩ := ihBody
    obtain ⟨hle₃, ⟨numbers₃, hnumbers₃, hnodup₃, hrange₃⟩, hgoals₃⟩ := ihParts
    refine ⟨by omega, ⟨numbers₁ ++ (tested + 1) :: (numbers₂ ++ (tested + 2) :: numbers₃), ?_, ?_,
      ?_⟩, ?_⟩
    · simp [hnumbers₁, hnumbers₂, hnumbers₃, label?]
    · grind
    · grind
    · simp only [goals_append, goals_cons, goal?, labels_append, labels_cons, label?]
      grind

/-- Every number that is drawn is that of a label in the code. -/
theorem placed (h : LaysOut first shape nodes code last) {number : Nat} (hfirst : first < number)
    (hlast : number ≤ last) : Labels.nameOf number ∈ Instruction.labels code := by
  induction h with
  | nil | noElse => omega
  | otherwise _ ih => exact ih hfirst hlast
  | append _ _ ihFirst ihOthers =>
    rw [labels_append, List.mem_append]
    grind
  | plain _ _ _ _ ih =>
    rw [labels_append, List.mem_append]
    exact .inl (ih hfirst hlast)
  | conditional _ _ _ ih =>
    simp only [labels_append, labels_cons, labels_nil, label?, List.mem_append]
    grind
  | loop _ _ _ _ ihCondition ihBody =>
    simp only [labels_append, labels_cons, labels_nil, label?, List.mem_append]
    grind
  | branch _ _ _ _ ihCondition ihBody ihParts =>
    simp only [labels_append, labels_cons, label?, List.mem_append]
    grind

/-- After every body of a conditional the code goes on at its end. -/
theorem final_mem {final : String} (h : LaysOut first (.parts final) nodes code last)
    (hbranches : branches nodes ≠ []) : final ∈ Instruction.goals code := by
  cases h with
  | noElse | otherwise => exact absurd rfl hbranches
  | branch => simp [goal?]

/-- Every label in the code is jumped to. -/
theorem jumped (h : LaysOut first shape nodes code last) :
    ∀ name ∈ Instruction.labels code, name ∈ Instruction.goals code := by
  induction h with
  | nil | noElse => nofun
  | otherwise _ ih => exact ih
  | append _ _ ihFirst ihOthers =>
    simp only [labels_append, goals_append]
    grind
  | plain _ _ hlabels _ ih =>
    simp only [labels_append, goals_append, hlabels]
    grind
  | conditional _ hbranches hparts ih =>
    have hfinal := hparts.final_mem hbranches
    simp only [goals_append, goals_cons, goals_nil, goal?, labels_append, labels_cons, labels_nil,
      label?]
    grind
  | loop _ _ _ _ ihCondition ihBody =>
    simp only [goals_append, goals_cons, goals_nil, goal?, labels_append, labels_cons, labels_nil,
      label?]
    grind
  | branch _ _ _ _ ihCondition ihBody ihParts =>
    simp only [goals_append, goals_cons, goal?, labels_append, labels_cons, label?]
    grind

/-- The labels that are drawn. -/
theorem last_eq (h : LaysOut first shape nodes code last) :
    last = first + (ownLabelCount shape nodes + (nodes.map (total labelCount)).sum) := by
  induction h with
  | nil | noElse => rfl
  | otherwise _ ih => exact ih
  | append _ _ ihFirst ihOthers =>
    rw [List.map_append, List.sum_append]
    simp only [ownLabelCount] at *
    omega
  | @plain _ _ node _ _ hplain _ _ _ ih =>
    rw [List.map_singleton, List.sum_singleton, total_eq, hplain, Nat.zero_add]
    exact ih
  | conditional _ _ _ ih =>
    rw [List.map_singleton, List.sum_singleton, total_eq, labelCount, children]
    simp only [ownLabelCount] at *
    omega
  | loop _ _ _ _ ihCondition ihBody =>
    rw [List.map_singleton, List.sum_singleton, total_eq, labelCount, children]
    simp only [List.map_cons, List.map_nil, List.sum_cons, List.sum_nil, ownLabelCount] at *
    omega
  | branch _ _ _ _ ihCondition ihBody ihParts =>
    simp only [List.map_cons, List.map_nil, List.sum_cons, List.sum_nil, ownLabelCount,
      branches, List.length_cons] at *
    omega

/-- Among the jumps of code only the one at the end of each loop goes back, each to a label of its
own. -/
theorem returns (h : LaysOut first shape nodes code last)
    (hshape : ∀ final, shape = .parts final → ∃ number ≤ first, final = Labels.nameOf number) :
    Returns first last (nodes.map loops).sum code := by
  have hinj := @Labels.nameOf_injective
  induction h with
  | nil | noElse => exact .of_none rfl
  | otherwise _ ih => exact ih nofun
  | append hfirst hothers ihFirst ihOthers =>
    have hlabels := @hfirst.isLabelled.mem_labels
    have hgoals := @hothers.isLabelled.mem_goals
    rw [List.map_append, List.sum_append]
    exact (ihFirst nofun).append (ihOthers nofun) hfirst.isLabelled.le hothers.isLabelled.le
      (by grind)
  | @plain _ _ node _ _ hplain hparts _ hgoals ih =>
    have hloop : node.isLoop = false := by cases node <;> first | rfl | cases hplain
    rw [List.map_singleton, List.sum_singleton, loops_eq, hloop, Bool.toNat_false, Nat.zero_add]
    exact (ih nofun).append (.of_none (jumpsBack_of_goals hgoals)) hparts.isLabelled.le
      (Nat.le_refl _) (by simp [hgoals])
  | @conditional first last parts mark code _ hparts ih =>
    have hend : Returns last last 0 [.label (Labels.nameOf (first + 1))] := .of_none rfl
    have hloop : (Node.conditional parts mark).isLoop = false := rfl
    rw [List.map_singleton, List.sum_singleton, loops_eq, hloop, Bool.toNat_false, Nat.zero_add]
    exact ((ih (by grind)).append hend hparts.isLabelled.le (Nat.le_refl _) nofun).wider
      (Nat.le_succ _) (Nat.le_refl _)
  | @loop first tested last condition body mark operand test inner htest hinner ihTest ihInner =>
    have hle₁ := htest.isLabelled.le
    have hle₂ := hinner.isLabelled.le
    have hlabels := @htest.isLabelled.mem_labels
    have hgoals₁ := @htest.isLabelled.mem_goals
    have hgoals₂ := @hinner.isLabelled.mem_goals
    let opening : List Instruction := [.branch operand (Labels.nameOf (first + 2)),
      .jump (Labels.nameOf (first + 3)), .label (Labels.nameOf (first + 2))]
    have hopening : Returns tested tested 0 opening :=
      .of_none (by simp [opening, jumpsBack, goal?, label?])
    have hbody : Returns tested last _ (opening ++ inner) :=
      hopening.append (ihInner nofun) (Nat.le_refl _) hle₂ (by simp [opening, label?]; grind)
    have hcode : Returns (first + 3) last _ (test ++ (opening ++ inner)) :=
      (ihTest nofun).append hbody hle₁ hle₂ (by simp [opening, goal?]; grind)
    have hall : Returns first last _ (.label (Labels.nameOf (first + 1)) ::
        (test ++ (opening ++ inner) ++
          [.jump (Labels.nameOf (first + 1)), .label (Labels.nameOf (first + 3))])) :=
      (hcode.wider (by omega) (Nat.le_refl _)).closed (by simp [opening, goal?]; grind) (by omega)
    have hloops : (Node.loop condition body mark).loops =
        ([condition].map loops).sum + (0 + ([body].map loops).sum) + 1 := by
      simp [loops_eq (.loop condition body mark), isLoop, children]
      omega
    rw [List.map_singleton, List.sum_singleton, hloops]
    simpa [opening] using hall
  | @branch first tested between last final condition body parts operand test inner others htest
      hinner hparts ihTest ihInner ihParts =>
    obtain ⟨number, hnumber, rfl⟩ := hshape final rfl
    have hle₁ := htest.isLabelled.le
    have hle₂ := hinner.isLabelled.le
    have hle₃ := hparts.isLabelled.le
    have hlabels₁ := @htest.isLabelled.mem_labels
    have hlabels₂ := @hinner.isLabelled.mem_labels
    have hgoals₂ := @hinner.isLabelled.mem_goals
    have hgoals₃ := @hparts.isLabelled.mem_goals
    let opening : List Instruction := [.branch operand (Labels.nameOf (tested + 1)),
      .jump (Labels.nameOf (tested + 2)), .label (Labels.nameOf (tested + 1))]
    let closing : List Instruction :=
      [.jump (Labels.nameOf number), .label (Labels.nameOf (tested + 2))]
    have hopening : Returns tested tested 0 opening :=
      .of_none (by simp [opening, jumpsBack, goal?, label?])
    have hclosing : Returns between between 0 closing :=
      .of_none (by simp [closing, jumpsBack, goal?, label?])
    have hrest : Returns between last _ (closing ++ others) :=
      hclosing.append (ihParts (by grind)) (Nat.le_refl _) hle₃ (by simp [closing, label?]; grind)
    have hbody : Returns (tested + 2) last _ (inner ++ (closing ++ others)) :=
      (ihInner nofun).append hrest hle₂ hle₃ (by simp [closing, goal?]; grind)
    have hguarded : Returns tested last _ (opening ++ (inner ++ (closing ++ others))) :=
      hopening.append (hbody.wider (Nat.le_add_right _ _) (Nat.le_refl _)) (Nat.le_refl _)
        (by omega) (by simp [opening, closing, goal?, label?]; grind)
    have hall : Returns first last _ (test ++ (opening ++ (inner ++ (closing ++ others)))) :=
      (ihTest nofun).append hguarded hle₁ (by omega) (by simp [opening, closing, goal?]; grind)
    simpa [opening, closing] using hall

end LaysOut

/-! ## Conditionals -/

/-- The code of a condition and its body. -/
structure Arm where
  /-- The code of the condition, whose value the operand holds afterwards. -/
  test : List Instruction
  operand : String
  /-- Where the code goes on if the condition holds. -/
  inside : String
  /-- Where the code goes on if it does not. -/
  next : String
  body : List Instruction

/-- The instructions of an arm of the conditional that ends at a label. -/
def Arm.instructions (final : String) (arm : Arm) : List Instruction :=
  arm.test ++ (.branch arm.operand arm.inside :: .jump arm.next :: .label arm.inside ::
    (arm.body ++ [.jump final, .label arm.next]))

/-- Code of a node. -/
def HasCode (node : Node) (code : List Instruction) : Prop :=
  ∃ first last, LaysOut first .statements [node] code last

/-- Each condition of a conditional has its arm with its body, and the code of the last body, which
has no condition, follows them. -/
structure IsChain (parts : List Node) (arms : List Arm) (rest : List Instruction) : Prop where
  arms : List.Forall₂ (fun branch arm => branch.1.HasCode arm.test ∧ branch.2.HasCode arm.body)
    (branches parts) arms
  rest : if let some body := lastBody? parts then body.HasCode rest else rest = []

/-- Each conditional stands in the code as its arms, the code of its last body, and the label of its
end. -/
def IsChained (code : List Instruction) : Node → Prop
  | conditional parts _ => ∃ arms rest final, IsChain parts arms rest ∧
      arms.flatMap (Arm.instructions final) ++ (rest ++ [.label final]) <:+: code
  | _ => True

/-- What stands in code stands in longer code. -/
theorem IsChained.mono {node : Node} {others : List Instruction} (h : node.IsChained code)
    (hcode : code <:+: others) : node.IsChained others := by
  cases node with
  | conditional =>
    obtain ⟨arms, rest, final, hchain, hinfix⟩ := h
    exact ⟨arms, rest, final, hchain, hinfix.trans hcode⟩
  | _ => trivial

namespace LaysOut

/-- The code of the parts of a conditional is a chain. -/
theorem exists_chain {final : String} (h : LaysOut first (.parts final) nodes code last) :
    ∃ arms rest, code = arms.flatMap (Arm.instructions final) ++ rest ∧
      IsChain nodes arms rest := by
  generalize hshape : Shape.parts final = shape at h
  induction h with
  | nil | append | plain | conditional | loop => cases hshape
  | noElse => exact ⟨[], [], rfl, .nil, rfl⟩
  | otherwise hbody => exact ⟨[], _, rfl, .nil, _, _, hbody⟩
  | @branch _ tested _ _ _ _ _ _ operand test inner _ htest hinner _ _ _ ihParts =>
    cases hshape
    obtain ⟨arms, rest, rfl, harms, hrest⟩ := ihParts rfl
    let arm : Arm :=
      ⟨test, operand, Labels.nameOf (tested + 1), Labels.nameOf (tested + 2), inner⟩
    refine ⟨arm :: arms, rest, ?_, .cons ⟨⟨_, _, htest⟩, _, _, hinner⟩ harms, hrest⟩
    simp [Arm.instructions, arm]

/-- Every conditional stands in the code as a chain. -/
theorem isChained (h : LaysOut first shape nodes code last) :
    ∀ node ∈ nodes, ∀ part ∈ node.preorder, part.IsChained code := by
  -- What stands in a piece of the code stands in the code.
  have hpiece {node : Node} {piece code : List Instruction} (before behind : List Instruction)
      (hcode : before ++ piece ++ behind = code)
      (hchained : ∀ part ∈ node.preorder, part.IsChained piece) :
      ∀ part ∈ node.preorder, part.IsChained code :=
    fun part hpart => (hchained part hpart).mono ⟨before, behind, hcode⟩
  induction h with
  | nil | noElse => nofun
  | otherwise _ ih => exact ih
  | @append _ _ _ _ _ code rest _ _ ihFirst ihOthers =>
    refine List.forall_mem_append.2 ⟨fun node hnode => ?_, fun node hnode => ?_⟩
    · exact hpiece [] rest rfl (ihFirst node hnode)
    · exact hpiece code [] (List.append_nil _) (ihOthers node hnode)
  | @plain _ _ node _ own hplain _ _ _ ih =>
    refine List.forall_mem_singleton.2 (forall_mem_preorder.2 ⟨?_, fun child hchild => ?_⟩)
    · cases node <;> trivial
    · exact hpiece [] own rfl (ih child hchild)
  | @conditional first _ _ _ code _ hparts ih =>
    let final := Labels.nameOf (first + 1)
    refine List.forall_mem_singleton.2 (forall_mem_preorder.2 ⟨?_, fun child hchild => ?_⟩)
    · obtain ⟨arms, rest, rfl, hchain⟩ := hparts.exists_chain
      exact ⟨arms, rest, final, hchain, [], [], by simp [final]⟩
    · exact hpiece [] [.label final] rfl (ih child hchild)
  | @loop first _ _ condition body _ operand test inner _ _ ihCondition ihBody =>
    let top := Labels.nameOf (first + 1)
    let inside := Labels.nameOf (first + 2)
    let exit := Labels.nameOf (first + 3)
    let opening : List Instruction := [.branch operand inside, .jump exit, .label inside]
    let closing : List Instruction := [.jump top, .label exit]
    refine List.forall_mem_singleton.2 (forall_mem_preorder.2 ⟨trivial, List.forall_mem_cons.2
      ⟨?_, List.forall_mem_singleton.2 ?_⟩⟩)
    · exact hpiece [.label top] (opening ++ (inner ++ closing)) rfl
        (ihCondition condition (.head _))
    · exact hpiece (.label top :: (test ++ opening)) closing
        (by simp [opening, closing, top, inside, exit]) (ihBody body (.head _))
  | @branch _ tested _ _ final condition body _ operand test inner others _ _ _ ihCondition ihBody
      ihParts =>
    let inside := Labels.nameOf (tested + 1)
    let next := Labels.nameOf (tested + 2)
    let opening : List Instruction := [.branch operand inside, .jump next, .label inside]
    let closing : List Instruction := [.jump final, .label next]
    refine List.forall_mem_cons.2 ⟨?_, List.forall_mem_cons.2 ⟨?_, fun node hnode => ?_⟩⟩
    · exact hpiece [] (opening ++ (inner ++ (closing ++ others))) rfl
        (ihCondition condition (.head _))
    · exact hpiece (test ++ opening) (closing ++ others)
        (by simp [opening, closing, inside, next]) (ihBody body (.head _))
    · exact hpiece (test ++ (opening ++ (inner ++ closing))) []
        (by simp [opening, closing, inside, next]) (ihParts node hnode)

end LaysOut

end Node

end ThreeAddress
