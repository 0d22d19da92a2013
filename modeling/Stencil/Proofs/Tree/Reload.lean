import Stencil.Proofs.Tree.Normal
import Stencil.Tree.Load

/-!
# Reading back the data form of a tree

Each part of a tree is read back from its data form: operands and calls first, then the fields of
each kind of node from an object that holds them, then nodes with their bodies. What comes back is
the normal form of the tree. The main statement is `Tree.exists_ofJson_toJson`.
-/

set_option autoImplicit false

namespace Stencil

/-! ## Values -/

/-- A list is read back when its members are. -/
theorem mapM_map_eq_ok {α β ε : Type} {write : α → β} {read : β → Except ε α}
    (h : ∀ a, read (write a) = .ok a) (l : List α) : (l.map write).mapM read = .ok l := by
  induction l with
  | nil => rfl
  | cons a rest ih =>
    rw [List.map_cons, List.mapM_cons, h, ih]
    rfl

/-- An operand is read back from its data form. -/
theorem Operand.ofJson_toJson (operand : Operand) : ofJson operand.toJson = .ok operand := by
  obtain ⟨text, isStatic, isQuoted⟩ := operand
  cases isQuoted <;> rfl

/-- Operands are read back from their data forms. -/
theorem Operand.mapM_ofJson_toJson (args : List Operand) :
    (args.map toJson).mapM ofJson = .ok args :=
  mapM_map_eq_ok ofJson_toJson args

/-- A modifier call is read back from its data form. -/
theorem ModifierCall.ofJson_toJson (call : ModifierCall) : ofJson call.toJson = .ok call := by
  have hname : call.toJson.textField (ascii "name") = .ok call.name := rfl
  have hargs : call.toJson.field (ascii "args") = .ok (.arr (call.args.map Operand.toJson)) := rfl
  have hread := Operand.mapM_ofJson_toJson call.args
  simp only [ofJson, hname, hargs, Json.elements, hread, bind, Except.bind, pure, Except.pure]

/-! ## Fields

Where the value of a field stands in its object as it is written, the field is read back by
evaluation; what is left to show is that the value is read back. -/

/-- A print statement is read back from its fields. -/
theorem Print.ofJson_object (statement : Print) :
    ofJson (Node.object .print statement.fields) = .ok statement := by
  obtain ⟨value, before, after, modifiers⟩ := statement
  generalize hform : Node.object .print _ = form
  have hvalue : Operand.ofField form (ascii "value") = .ok value := by
    subst hform
    exact value.ofJson_toJson
  have hbefore : form.textFieldOrEmpty (ascii "prefix") = .ok before := by
    subst hform
    cases before <;> cases after <;> cases modifiers <;> rfl
  have hafter : form.textFieldOrEmpty (ascii "suffix") = .ok after := by
    subst hform
    cases before <;> cases after <;> cases modifiers <;> rfl
  have hcalls : form.field? (ascii "mods") =
      if modifiers.isEmpty then none else some (.arr (modifiers.map ModifierCall.toJson)) := by
    subst hform
    cases before <;> cases after <;> cases modifiers <;> rfl
  have hread := mapM_map_eq_ok ModifierCall.ofJson_toJson modifiers
  rw [ofJson, hvalue, hbefore, hafter, hcalls]
  cases modifiers with
  | nil => rfl
  | cons call rest =>
    simp only [List.isEmpty_cons, Bool.false_eq_true, if_false, Json.elements, hread]
    rfl

/-- A binding is read back from its fields. -/
theorem Binding.ofJson_object (statement : Binding) :
    ofJson (Node.object .bind statement.fields) = .ok statement := by
  obtain ⟨target, source, kind⟩ := statement
  generalize hform : Node.object .bind _ = form
  have htarget : form.textField (ascii "var") = .ok target := by
    subst hform
    rfl
  have hsource : Operand.ofField form (ascii "src") = .ok source := by
    subst hform
    exact source.ofJson_toJson
  have hkind : form.textFieldOrEmpty (ascii "kind") = .ok kind := by
    subst hform
    cases kind <;> rfl
  rw [ofJson, htarget, hsource, hkind]
  rfl

/-- A counter statement is read back from its fields. -/
theorem Counter.ofJson_object (statement : Counter) :
    ofJson (Node.object .counter statement.fields) = .ok statement := by
  obtain ⟨name, action, amount⟩ := statement
  have hread : ofJson (Node.object .counter (fields { name, action, amount })) =
      .ok { name, action, amount := Int64.ofInt amount.toInt } := by
    cases action <;> rfl
  rw [hread, Int64.ofInt_toInt]

/-- A comparison is read back from its fields, whatever stands behind them. -/
theorem Comparison.ofJson_object (kind : NodeKind) (comparison : Comparison)
    (more : List (Bytes × Json)) :
    ofJson (Node.object kind (comparison.fields ++ more)) = .ok comparison := by
  generalize hform : Node.object kind (comparison.fields ++ more) = form
  have hleft : Operand.ofField form (ascii "left") = .ok comparison.left := by
    subst hform
    exact comparison.left.ofJson_toJson
  have hop : Operator.ofField form (ascii "op") = .ok comparison.op := by
    subst hform
    exact congrArg Except.ok comparison.op.ofText_text
  have hright : Operand.ofField form (ascii "right") = .ok comparison.right := by
    subst hform
    exact comparison.right.ofJson_toJson
  rw [ofJson, hleft, hop, hright]
  rfl

/-- Of a condition its normal form is read back. -/
theorem Condition.ofJson_object (condition : Condition) (children : Json) :
    ofJson (Node.object .cond (condition.fields ++ [(ascii "children", children)])) =
      .ok condition.normal := by
  obtain ⟨comparison, helper, args⟩ := condition
  generalize hform : Node.object .cond _ = form
  cases helper with
  | nil =>
    have hhelper : form.field? (ascii "helper") = none := by
      subst hform
      rfl
    have hread : Comparison.ofJson form = .ok comparison := by
      subst hform
      exact comparison.ofJson_object .cond _
    rw [ofJson, hhelper]
    simp only [hread]
    rfl
  | cons b rest =>
    have hhelper : form.field? (ascii "helper") = some (.str (b :: rest)) := by
      subst hform
      rfl
    have hargs : form.field (ascii "args") = .ok (.arr (args.map Operand.toJson)) := by
      subst hform
      rfl
    have hread := Operand.mapM_ofJson_toJson args
    rw [ofJson, hhelper]
    simp only [hargs, Json.elements, Json.asText, bind, Except.bind]
    rw [hread]
    rfl

/-- The head of a counting loop is read back from its fields. -/
theorem CountHead.ofJson_object (head : CountHead) (children : Json) :
    ofJson (Node.object .forCount (head.fields ++ [(ascii "children", children)])) =
      .ok head := by
  generalize hform : Node.object .forCount _ = form
  have hcounter : form.textField (ascii "counter") = .ok head.counter := by
    subst hform
    rfl
  have hinit : Operand.ofField form (ascii "init") = .ok head.init := by
    subst hform
    exact head.init.ofJson_toJson
  have htest : Operator.ofField form (ascii "cond") = .ok head.test := by
    subst hform
    exact congrArg Except.ok head.test.ofText_text
  have hlimit : Operand.ofField form (ascii "limit") = .ok head.limit := by
    subst hform
    exact head.limit.ofJson_toJson
  have hdirection : Operator.ofField form (ascii "step_op") = .ok head.direction := by
    subst hform
    exact congrArg Except.ok head.direction.ofText_text
  have hstep : form.field (ascii "step") = .ok (.int head.step.toInt) := by
    subst hform
    rfl
  have hseparator : form.textField (ascii "sep") = .ok head.separator := by
    subst hform
    rfl
  rw [ofJson, hcounter, hinit, htest, hlimit, hdirection, hstep, hseparator]
  simp [Json.asInt64, bind, Except.bind, pure, Except.pure]

/-! ## Nodes -/

namespace Node

/-- The kind of an object decides how it is read. -/
theorem shell_object (kind : NodeKind) (fields : List (Bytes × Json)) :
    shell (object kind fields) = liftFault (shellOfKind (object kind fields) kind) := by
  cases kind <;> rfl

/-- A node without a body is read from its fields. -/
theorem ofJson_leaf {kind : NodeKind} {fields : List (Bytes × Json)} {node : Node}
    (hshell : shellOfKind (object kind fields) kind = .ok (.leaf node)) :
    ofJson (object kind fields) = .ok node := by
  have hread := shell_object kind fields
  rw [hshell] at hread
  rw [object] at hread ⊢
  rw [ofJson, hread]
  rfl

/-- A node with a body is read from its fields and its body. -/
theorem ofJson_branch {kind : NodeKind} {fields : List (Bytes × Json)} {forms : List Json}
    {withBody : List Node → Node} {children : List Node}
    (hshell : shellOfKind (object kind fields) kind = .ok (.branch withBody))
    (hbody : bodyOfFields ((ascii "type", .str kind.name) :: fields) = listOfJson forms)
    (hchildren : listOfJson forms = .ok children) :
    ofJson (object kind fields) = .ok (withBody children) := by
  have hread := shell_object kind fields
  rw [hshell] at hread
  rw [object] at hread ⊢
  rw [ofJson, hread]
  simp only [liftFault, hbody, hchildren]
  rfl

/-- The body of a condition is found behind its fields. -/
theorem bodyOfFields_cond (condition : Condition) (forms : List Json) :
    bodyOfFields ((ascii "type", .str NodeKind.cond.name) ::
      (condition.fields ++ [(ascii "children", .arr forms)])) = listOfJson forms := by
  obtain ⟨comparison, helper, args⟩ := condition
  cases helper <;> rfl

mutual

/-- Of a node its normal form is read back. -/
theorem ofJson_toJson : (node : Node) → ofJson node.toJson = .ok node.normal
  | raw text => ofJson_leaf rfl
  | print statement => by
    have hshell : shellOfKind (object .print statement.fields) .print =
        .ok (.leaf (print statement)) := by
      rw [shellOfKind, statement.ofJson_object]
      rfl
    exact ofJson_leaf hshell
  | bind statement => by
    have hshell : shellOfKind (object .bind statement.fields) .bind =
        .ok (.leaf (bind statement)) := by
      rw [shellOfKind, statement.ofJson_object]
      rfl
    exact ofJson_leaf hshell
  | counter statement => by
    have hshell : shellOfKind (object .counter statement.fields) .counter =
        .ok (.leaf (counter statement)) := by
      rw [shellOfKind, statement.ofJson_object]
      rfl
    exact ofJson_leaf hshell
  | cond condition children => by
    have hshell : ∀ body, shellOfKind
        (object .cond (condition.fields ++ [(ascii "children", body)])) .cond =
          .ok (.branch (cond condition.normal)) := by
      intro body
      rw [shellOfKind, condition.ofJson_object]
      rfl
    exact ofJson_branch (hshell _) (bodyOfFields_cond condition _) (listOfJson_listToJson children)
  | onTrue children => ofJson_branch rfl rfl (listOfJson_listToJson children)
  | onFalse children => ofJson_branch rfl rfl (listOfJson_listToJson children)
  | forRange head children =>
    ofJson_branch rfl rfl (listOfJson_listToJson children)
  | forCount head children => by
    have hshell : ∀ body, shellOfKind
        (object .forCount (head.fields ++ [(ascii "children", body)])) .forCount =
          .ok (.branch (forCount head)) := by
      intro body
      rw [shellOfKind, head.ofJson_object]
      rfl
    exact ofJson_branch (hshell _) rfl (listOfJson_listToJson children)
  | breakLoop => ofJson_leaf rfl
  | continueLoop => ofJson_leaf rfl
  | switch subject children => by
    have hsubject : ∀ body, Operand.ofField (object .switch
        [(ascii "arg", subject.toJson), (ascii "children", body)]) (ascii "arg") = .ok subject :=
      fun _ => subject.ofJson_toJson
    have hshell : ∀ body, shellOfKind (object .switch
        [(ascii "arg", subject.toJson), (ascii "children", body)]) .switch =
          .ok (.branch (switch subject)) := by
      intro body
      rw [shellOfKind, hsubject]
      rfl
    exact ofJson_branch (hshell _) rfl (listOfJson_listToJson children)
  | case test children => by
    have hshell : ∀ body, shellOfKind
        (object .case (test.fields ++ [(ascii "children", body)])) .case =
          .ok (.branch (case test)) := by
      intro body
      rw [shellOfKind, test.ofJson_object]
      rfl
    exact ofJson_branch (hshell _) rfl (listOfJson_listToJson children)
  | default children => ofJson_branch rfl rfl (listOfJson_listToJson children)
  | divider => ofJson_leaf rfl
  | exit => ofJson_leaf rfl

/-- Nodes are read back from their data forms in normal form. -/
theorem listOfJson_listToJson :
    (nodes : List Node) → listOfJson (listToJson nodes) = .ok (normalAll nodes)
  | [] => rfl
  | node :: rest => by
    rw [listToJson, listOfJson, ofJson_toJson node, listOfJson_listToJson rest]
    rfl

end

end Node

/-- Dump and load are inverse. Of every tree the data form is read back into a tree with the same
data form, the same outline and the same rendering; a tree that was parsed is read back as it
is. -/
theorem Tree.exists_ofJson_toJson [JsonLibrary] (tree : Tree) :
    ∃ reloaded, Tree.ofJson tree.toJson = .ok reloaded ∧
      reloaded.toJson = tree.toJson ∧
      reloaded.outline = tree.outline ∧
      (∀ registry iterations context,
        Node.renderAll registry iterations reloaded.nodes context =
          Node.renderAll registry iterations tree.nodes context) ∧
      (∀ keepFormatting text, Tree.parse keepFormatting text = .ok tree → reloaded = tree) := by
  refine ⟨⟨Node.normalAll tree.nodes⟩, ?_, ?_, ?_, ?_, ?_⟩
  · rw [Tree.toJson, Tree.ofJson, Node.listOfJson_listToJson]
    rfl
  · rw [Tree.toJson, Node.listToJson_normalAll]
    rfl
  · rw [Tree.outline, Node.listOutline_normalAll]
    rfl
  · intro registry iterations context
    rw [Node.renderAll_normalAll]
  · intro keepFormatting text hparse
    rw [Node.normalAll_eq_self (Tree.spells_of_parse hparse).normal]

end Stencil
