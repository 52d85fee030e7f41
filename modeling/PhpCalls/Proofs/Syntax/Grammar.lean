import PhpCalls.Proofs.Syntax.Leaves
import PhpCalls.Syntax.Parser

set_option autoImplicit false
set_option synthInstance.maxSize 10000

/-!
# The grammar loses nothing

Every rule of the grammar gives just the tokens that it took, or those of the fragment that it goes
on from and then the tokens that it took. There is one instance for each rule, in the order of the
grammar; where a rule only puts other rules together, the instances of its parts give its own. The
rules for functions, methods and classes take the name from the page, and nothing before it is in a
role.

## Main results

* `Rules.lossless_ofDepth`: the rules for constructs of every depth lose nothing.
-/

namespace PhpCalls.Syntax

namespace Grammar

open Parse

variable {r : Rules} [r.Lossless] {base : Fragment}

/-! ## Names, variables and types -/

instance adds_subspace : Adds [] subspace := by unfold subspace; infer_instance

instance adds_qualified : Adds [] qualified := by unfold qualified; infer_instance

instance adds_namespaceName : Adds [] namespaceName := by unfold namespaceName; infer_instance

instance adds_plainVariable : Adds [] plainVariable := by unfold plainVariable; infer_instance

instance adds_variableWithin (n : Nat) : Adds [] (variableWithin r n) := by
  induction n with
  | zero => exact adds_failure
  | succ n ih => rw [variableWithin]; infer_instance

instance adds_variable : Adds [] (variable_ r) := by unfold variable_; infer_instance

instance adds_typeAtom : Adds [] typeAtom := by
  refine adds_of_peek fun ts => ?_
  split <;> infer_instance

instance adds_ampersand : Adds [] ampersand := by unfold ampersand; infer_instance

instance adds_typeUnit : Adds [] typeUnit := by unfold typeUnit; infer_instance

/-- One type alone, or the parts of a type. -/
instance adds_type : Adds [] type := by
  have hparts (first rest : Fragment) (k : Kind) [k.Plain] : Adds (first ++ rest)
      (if rest.isEmpty then pure first else pure (Fragment.close k (first ++ rest))) := by
    split
    next hempty =>
      rw [List.isEmpty_iff.mp hempty, List.append_nil]
      exact adds_pure
    next => infer_instance
  unfold type
  infer_instance

instance adds_returnType : Adds [] returnType := by unfold returnType; infer_instance

/-! ## Arguments, arrays and texts with variables -/

instance adds_unpacking : Adds [] (unpacking r) := by unfold unpacking; infer_instance

instance adds_argument : Adds [] (argument r) := by unfold argument; infer_instance

instance adds_arguments : Adds [] (arguments r) := by unfold arguments; infer_instance

instance adds_attribute : Adds [] (attribute_ r) := by unfold attribute_; infer_instance

instance adds_attributes : Adds [] (attributes r) := by unfold attributes; infer_instance

instance adds_elementValue : Adds [] (elementValue r) := by unfold elementValue; infer_instance

instance adds_element : Adds [] (element r) := by unfold element; infer_instance

instance adds_elements (closer : String) : Adds [] (elements r closer) := by
  unfold elements; infer_instance

instance adds_simpleIndex : Adds [] simpleIndex := by unfold simpleIndex; infer_instance

instance adds_simpleVariable : Adds [] simpleVariable := by unfold simpleVariable; infer_instance

instance adds_templatePart : Adds [] (templatePart r) := by unfold templatePart; infer_instance

instance plain_templateKind (opening : String) : (templateKind opening).Plain := by
  unfold templateKind
  split <;> infer_instance

instance adds_template : Adds [] (template r) := by
  refine adds_of_peek fun ts => ?_
  split <;> infer_instance

/-! ## Routines and classes -/

instance adds_block : Adds [] (block r) := by unfold block; infer_instance

instance adds_modifier : Adds [] modifier := by
  refine adds_of_peek fun ts => ?_
  repeat' split
  all_goals infer_instance

instance roleless_attributes : Roleless (attributes r) := by unfold attributes; infer_instance

instance roleless_modifier : Roleless modifier := by
  refine roleless_of_peek fun ts => ?_
  repeat' split
  all_goals infer_instance

instance roleless_modifiers : Roleless modifiers := by unfold modifiers; infer_instance

instance adds_modifiers : Adds [] modifiers := by unfold modifiers; infer_instance

instance adds_hookParameter : Adds [] (hookParameter r) := by unfold hookParameter; infer_instance

instance adds_propertyHook : Adds [] (propertyHook r) := by unfold propertyHook; infer_instance

instance adds_propertyHooks : Adds [] (propertyHooks r) := by unfold propertyHooks; infer_instance

instance adds_defaultValue : Adds [] (defaultValue r) := by unfold defaultValue; infer_instance

instance adds_parameter : Adds [] (parameter r) := by unfold parameter; infer_instance

instance adds_parameters : Adds [] (parameters r) := by unfold parameters; infer_instance

instance adds_returnsReference : Adds [] returnsReference := by
  unfold returnsReference; infer_instance

instance roleless_returnsReference : Roleless returnsReference := by
  unfold returnsReference; infer_instance

instance adds_signature : Adds [] (signature r) := by unfold signature; infer_instance

instance adds_functionDefinition : Adds [] (functionDefinition r) := by
  unfold functionDefinition; infer_instance

instance adds_closureUses : Adds [] closureUses := by unfold closureUses; infer_instance

instance adds_closure : Adds [] (closure r) := by unfold closure; infer_instance

instance adds_arrowFunction : Adds [] (arrowFunction r) := by unfold arrowFunction; infer_instance

instance adds_constElement : Adds [] (constElement r) := by unfold constElement; infer_instance

instance adds_constType : Adds [] constType := by unfold constType; infer_instance

instance adds_constants : Adds [] (constants r) := by unfold constants; infer_instance

instance adds_traitUse : Adds [] traitUse := by unfold traitUse; infer_instance

instance adds_enumCase : Adds [] (enumCase r) := by unfold enumCase; infer_instance

instance adds_propertyElement : Adds [] (propertyElement r) := by
  unfold propertyElement; infer_instance

instance adds_properties : Adds [] (properties r) := by unfold properties; infer_instance

instance adds_member : Adds [] (member r) := by
  refine adds_of_peek fun _ =>
    adds_of_ite inferInstance (adds_bind_of_roleless fun before hbefore => ?_)
  have := roleless_pure hbefore
  infer_instance

instance adds_declarationList : Adds [] (declarationList r) := by
  unfold declarationList; infer_instance

instance adds_baseClause : Adds [] baseClause := by unfold baseClause; infer_instance

instance adds_interfaceClause : Adds [] interfaceClause := by unfold interfaceClause; infer_instance

instance adds_enumType : Adds [] enumType := by unfold enumType; infer_instance

instance adds_classLike : Adds [] (classLike r) := by
  refine adds_bind_of_roleless fun before hbefore => adds_of_peek fun ts => ?_
  have := roleless_pure hbefore
  split <;> infer_instance

instance adds_anonymousClass : Adds [] (anonymousClass r) := by
  unfold anonymousClass; infer_instance

/-! ## Expressions -/

instance adds_memberName : Adds [] (memberName r) := by unfold memberName; infer_instance

instance adds_memberOf : Adds base (memberOf r base) := by unfold memberOf; infer_instance

/-- The word before `::` that names a class by where it stands is the one part of a node. -/
instance adds_pure_scopeOf : Adds base (pure (scopeOf base)) := by
  unfold scopeOf
  refine adds_pure_of_leaves_eq ?_ fun h => ?_
  · rw [Fragment.leaves_inRole]
    refine Fragment.leaves_map (fun p => ?_) base
    split
    · simp [Node.leaves_of_ne_nil]
    · rfl
  · refine (h.map fun p hp => ?_).inRole .scope
    split
    · exact ⟨.plainNode none _ rfl rfl (by simpa using hp.node), fun _ => rfl⟩
    · exact hp

instance adds_scopedOf : Adds base (scopedOf r base) := by unfold scopedOf; infer_instance

instance adds_elementOf : Adds base (elementOf r base) := by unfold elementOf; infer_instance

instance adds_bracedElementOf : Adds base (bracedElementOf r base) := by
  unfold bracedElementOf; infer_instance

instance adds_callOf : Adds base (callOf r base) := by unfold callOf; infer_instance

/-- An array and a pattern have the same parts. -/
instance adds_pure_asPattern : Adds base (pure (asPattern base)) := by
  unfold asPattern
  refine adds_pure_of_leaves_eq (Fragment.leaves_map (fun p => ?_) base) fun h =>
    h.map fun p hp => ?_
  · split
    next role t s e cs hnode =>
      rw [hnode]
      cases cs <;> simp only [Node.leaves]
    next => rfl
  · split
    next role t s e cs hnode =>
      obtain ⟨hwell, -⟩ := hp
      rw [hnode] at hwell
      refine ⟨?_, nofun⟩
      cases hwell with
      | leaf => exact .leaf ..
      | node _ _ _ hfirst hlast hparts => exact .plainNode _ _ hfirst hlast hparts
    next => exact hp

instance adds_assignmentTo : Adds base (assignmentTo r base) := by
  unfold assignmentTo; infer_instance

instance adds_postfixesWithin (n : Nat) : Adds base (postfixesWithin r n base) := by
  induction n generalizing base with
  | zero => exact adds_pure
  | succ n ih => rw [postfixesWithin]; infer_instance

instance adds_withPostfixes {p : Parse Fragment} [Adds base p] : Adds base (withPostfixes r p) := by
  unfold withPostfixes; infer_instance

instance adds_designatorTail (n : Nat) : Adds base (designatorTail r n base) := by
  induction n generalizing base with
  | zero => exact adds_pure
  | succ n ih =>
    have hclose (access : Fragment) (k : Kind) [k.Plain] : Adds access
        (designatorTail r n (access.close k)) :=
      adds_of_close ih
    rw [designatorTail]
    infer_instance

instance adds_designator : Adds [] (designator r) := by unfold designator; infer_instance

instance peeks_seesAnonymousClass : Peeks seesAnonymousClass := by
  refine @peeks_bind _ _ _ _ peeks_ahead fun ts => ?_
  split <;> infer_instance

instance adds_creation : Adds [] (creation r) := by unfold creation; infer_instance

instance adds_matchArm : Adds [] (matchArm r) := by unfold matchArm; infer_instance

instance adds_matchExpression : Adds [] (matchExpression r) := by
  unfold matchExpression; infer_instance

instance adds_yieldExpression : Adds [] (yieldExpression r) := by
  unfold yieldExpression; infer_instance

instance adds_swallowing (k : Kind) [k.Plain] : Adds [] (swallowing r k) := by
  unfold swallowing; infer_instance

instance adds_nameOperand : Adds [] (nameOperand r) := by unfold nameOperand; infer_instance

instance adds_plainWordOperand (t : Token) : Adds [] (plainWordOperand r t) := by
  refine adds_of_peek fun called => ?_
  split <;> infer_instance

/-- The kinds of include expressions declare nothing. -/
lemma plain_of_includeKind? {w : String} {k : Kind} (h : includeKind? w = some k) : k.Plain := by
  unfold includeKind? at h
  split at h <;> cases h <;> infer_instance

instance adds_wordOperand (t : Token) : Adds [] (wordOperand r t) := by
  unfold wordOperand
  split
  next k hk =>
    have := plain_of_includeKind? hk
    infer_instance
  next => split <;> infer_instance

instance peeks_seesCast : Peeks seesCast := by
  refine @peeks_bind _ _ _ _ peeks_ahead fun ts => ?_
  split <;> infer_instance

instance adds_markOperand (t : Token) : Adds [] (markOperand r t) := by
  unfold markOperand
  split <;> infer_instance

instance adds_operand : Adds [] (operand r) := by
  refine adds_of_peek fun ts => ?_
  repeat' split
  all_goals infer_instance

instance adds_operationOn (l : Nat) (t : Token) : Adds base (operationOn r base l t) := by
  unfold operationOn
  split <;> infer_instance

instance adds_operationsWithin (least n : Nat) : Adds base (operationsWithin r least n base) := by
  induction n generalizing base with
  | zero => exact adds_pure
  | succ n ih =>
    rw [operationsWithin]
    refine adds_of_peek fun _ => adds_of_ite adds_pure (adds_of_peek fun ts => ?_)
    split <;> infer_instance

instance adds_expression (least : Nat) : Adds [] (expression r least) := by
  unfold expression; infer_instance

/-! ## Statements -/

instance adds_condition : Adds [] (condition r) := by unfold condition; infer_instance

instance adds_colonBlock (ws : List String) : Adds [] (colonBlock r ws) := by
  unfold colonBlock; infer_instance

instance adds_bodyOrColon (closer : String) : Adds [] (bodyOrColon r closer) := by
  unfold bodyOrColon; infer_instance

instance adds_ifStatement : Adds [] (ifStatement r) := by unfold ifStatement; infer_instance

instance adds_switchCase : Adds [] (switchCase r) := by unfold switchCase; infer_instance

instance adds_switchStatement : Adds [] (switchStatement r) := by
  unfold switchStatement; infer_instance

instance adds_whileStatement : Adds [] (whileStatement r) := by
  unfold whileStatement; infer_instance

instance adds_doStatement : Adds [] (doStatement r) := by unfold doStatement; infer_instance

instance adds_expressionsBefore (closer : String) : Adds [] (expressionsBefore r closer) := by
  unfold expressionsBefore; infer_instance

instance adds_forStatement : Adds [] (forStatement r) := by unfold forStatement; infer_instance

instance adds_foreachTarget : Adds [] (foreachTarget r) := by unfold foreachTarget; infer_instance

instance adds_foreachStatement : Adds [] (foreachStatement r) := by
  unfold foreachStatement; infer_instance

instance adds_jump (k : Kind) [k.Plain] : Adds [] (jump r k) := by unfold jump; infer_instance

instance adds_exitStatement : Adds [] (exitStatement r) := by unfold exitStatement; infer_instance

instance adds_tryStatement : Adds [] (tryStatement r) := by unfold tryStatement; infer_instance

instance adds_declareStatement : Adds [] (declareStatement r) := by
  unfold declareStatement; infer_instance

instance adds_namespaceDefinition : Adds [] (namespaceDefinition r) := by
  unfold namespaceDefinition; infer_instance

instance adds_importSort : Adds [] importSort := by unfold importSort; infer_instance

instance adds_importClause : Adds [] importClause := by unfold importClause; infer_instance

instance adds_importGroup : Adds [] importGroup := by unfold importGroup; infer_instance

instance adds_useDeclaration : Adds [] useDeclaration := by unfold useDeclaration; infer_instance

instance adds_globalDeclaration : Adds [] (globalDeclaration r) := by
  unfold globalDeclaration; infer_instance

instance adds_staticDeclaration : Adds [] (staticDeclaration r) := by
  unfold staticDeclaration; infer_instance

instance adds_expressionStatement : Adds [] (expressionStatement r) := by
  unfold expressionStatement; infer_instance

instance adds_wordStatement (t : Token) (second : Option Token) :
    Adds [] (wordStatement r t second) := by
  unfold wordStatement
  split <;> infer_instance

instance adds_statement : Adds [] (statement r) := by
  refine adds_of_peek fun ts => ?_
  repeat' split
  all_goals infer_instance

end Grammar

/-- The rules of the grammar lose nothing, however deep constructs are nested. -/
instance Rules.lossless_ofDepth (n : Nat) : (Rules.ofDepth n).Lossless := by
  induction n with
  | zero => exact ⟨fun _ => Parse.adds_failure, Parse.adds_failure⟩
  | succ n ih => exact ⟨fun least => Grammar.adds_expression least, Grammar.adds_statement⟩

end PhpCalls.Syntax
