import Treeshake.Ecma.Expression
import Treeshake.Proofs.Ecma.Class
import Treeshake.Proofs.Ecma.Element

namespace Treeshake.Ecma.ExpressionGrammar

open Treeshake.Ecma.Parser Signature TypeGrammar ClassGrammar

instance : Held Link := ⟨fun link => [link.tree]⟩
instance : Held Guess := ⟨fun _ => []⟩
instance : Held ArrowHead := ⟨ArrowHead.parts⟩

-- The operand of an update is a target.
theorem within_update {tree target : Tree} (h : Tree.Converts tree target) :
    Within [tree] [.node .update [target]] := by
  refine ⟨by simpa [Form.name?] using h.names, fun hplaced => ?_⟩
  simpa [Tree.placed_update] using h.placed (hplaced tree (by simp))

theorem within_assign {tree target value : Tree} (plain : Bool) (h : Tree.Converts tree target) :
    Within [tree, value] [.node (.assign plain) [target, value]] := by
  refine ⟨by simpa [Form.name?] using h.names, fun hplaced => ?_⟩
  simpa [Tree.placed_assign] using ⟨h.placed (hplaced tree (by simp)), hplaced value (by simp)⟩

section Literals

theorem yields_inside {α : Type} [Held α] {p : Parser α} (h : Yields p) : Yields (inside p) :=
  yields_under _ h

theorem yields_spreadOr {item : Parser Tree} (h : Yields item) : Yields (spreadOr item) := by
  refine (yields_accept _).skip fun _ => .ite ?_ h
  exact h.bind fun tree => .node rfl (by simp [held])

-- The scanner goes back to the slash.
theorem yields_patternLiteral : Yields patternLiteral := by
  refine builds_get fun s => ?_
  extract_lets behind
  have hbehind (c : Cursor) (hback : ∀ source low, s.Holds source low [] →
      c.InSource source ∧ s.lexeme.span.start ≤ c.offset) :
      BuildsFrom s [] (behind c) held := by
    intro source low tree s' hrun hs
    obtain ⟨hc, hstart⟩ := hback source low hs
    have hlast : Builds [] (do
        advance
        return Tree.plain) held := yields_advance.skip fun _ => .plain
    let s₁ : State := { s with
      lexeme := (Lexer.pattern c s.lexeme.afterBreak).1
      after := (Lexer.pattern c s.lexeme.afterBreak).2
      sound := s.sound && (Lexer.pattern c s.lexeme.afterBreak).1.sound }
    refine hlast s₁ source low tree s' hrun ?_
    exact hs.rescan (Lexer.scans_pattern s.lexeme.afterBreak) hc hstart rfl rfl
  split
  · next htoken => exact hbehind _ fun source low hs => hs.stands.back htoken
  · next htoken => exact hbehind _ fun source low hs => hs.stands.back htoken
  · exact Builds.giveUp s

theorem yields_superExpression : Yields superExpression := by
  refine (yields_expectWord _).skip fun _ => (yields_sees _).skip fun _ => ?_
  refine (yields_sees _).skip fun _ => (yields_sees _).skip fun _ => ?_
  exact (yields_blameIf _).skip fun _ => .plain

variable {self : Grammar} (hself : self.Yields)

include hself

theorem yields_arguments : Yields (arguments self) :=
  yields_inside (yields_enclosed _ _ (yields_spreadOr (hself _)))

theorem yields_array : Yields (array self) := by
  refine (yields_expect _).skip fun _ => ?_
  refine (yields_inside (yields_commaList _ ?_)).bind fun (items, comma) => ?_
  · refine (yields_sees _).skip fun _ => .ite ?_ (yields_spreadOr (hself _))
    exact .node rfl (List.Sublist.refl _)
  · exact (yields_expect _).skip fun _ => .node rfl (by simp [held])

theorem yields_parenthesized : Yields (parenthesized self) := by
  refine (yields_expect _).skip fun _ => (yields_inside (hself _)).bind fun value => ?_
  exact (yields_expect _).skip fun _ => .node rfl (by simp [held])

theorem yields_templateLiteral (tagged : Bool) : Yields (templateLiteral self tagged) := by
  refine (yields_inside (yields_template (hself _))).bind fun (parts, valid) => ?_
  exact (yields_blameIf _).skip fun _ => .some (by simp [held])

theorem yields_importExpression : Yields (importExpression self) := by
  refine (yields_expectWord _).skip fun _ => (yields_accept _).skip fun _ => ?_
  extract_lets opened loaded
  have hopened (u : Unit) : Builds [] (opened u) held := by
    refine (hself _).bind fun first => (yields_accept _).skip fun _ => ?_
    extract_lets behind
    have hbehind (second : List Tree) : Builds (first :: second) (behind second) held := by
      unfold behind
      extract_lets last
      have hlast (trailing : Bool) : Builds (first :: second) (last trailing) held :=
        (yields_expect _).skip fun _ => .some (by simp [held])
      exact .ite (.pureBind (hlast false)) ((yields_accept _).skip hlast)
    refine .ite ((yields_sees _).skip fun _ => .ite ?_ ?_) (.pureBind (hbehind []))
    · exact .pureBind (hbehind [])
    · exact (hself _).bind fun second => .pureBind (hbehind [second])
  have hloaded (u : Unit) : Builds [] (loaded u) held := by
    refine (yields_inside ?_).bind fun parts => .node rfl (by simp [held])
    refine (yields_expect _).skip fun _ => (yields_sees _).skip fun _ => ?_
    exact .ite .giveUpBind (hopened ())
  refine .ite ((yields_acceptWord _).skip fun _ => .ite ?_ ?_) (hloaded ())
  · have hmark : Yields (modify fun s => { s with isModule := true } : Parser Unit) :=
      yields_modify (fun _ => rfl) fun _ => rfl
    exact hmark.skip fun _ => .plain
  · refine (yields_or (yields_acceptWord _) (yields_acceptWord _)).skip fun _ => ?_
    exact .ite .giveUpBind (hloaded ())

theorem yields_newExpression : Yields (newExpression self) := by
  refine (yields_expectWord _).skip fun _ => (yields_accept _).skip fun _ => .ite ?_ ?_
  · exact (yields_expectWord _).skip fun _ => .plain
  refine (hself _).bind fun callee => (yields_sees _).skip fun _ => ?_
  extract_lets last applied
  have hlast (args : List Tree) : Builds (callee :: args) (last args) held :=
    .node rfl (List.Sublist.refl _)
  have happlied (u : Unit) : Builds [callee] (applied u) held := by
    refine (yields_blameIf _).skip fun _ => (yields_sees _).skip fun _ => .ite ?_ ?_
    · exact (yields_arguments hself).bind hlast
    · exact .pureBind (hlast [])
  exact .ite (yields_blame.skip fun _ => .giveUpBind) (happlied ())

theorem yields_primary : Yields (primary self) := by
  have hplain : Yields (do
      advance
      return Tree.plain) := yields_advance.skip fun _ => .plain
  refine yields_token.skip fun t => ?_
  split
  · exact hplain
  · exact hplain
  · exact hplain
  · exact (yields_templateLiteral hself false).bind fun parts => .node rfl (by simp [held])
  · exact yields_parenthesized hself
  · exact yields_array hself
  · exact yields_object hself
  · exact yields_patternLiteral
  · exact yields_patternLiteral
  · refine (yields_decorators hself).bind fun marks => ?_
    exact (yields_classExpression hself).bind fun tree => .node rfl (by simp [held])
  · exact hplain
  · exact hplain
  · exact hplain
  · exact hplain
  · exact yields_functionExpression hself false
  · exact yields_classExpression hself
  · exact yields_newExpression hself
  · exact yields_importExpression hself
  · exact yields_superExpression
  · refine (yields_seesWord _).skip fun _ => (yields_nextOnLineIs _).skip fun _ => .ite ?_ ?_
    · exact yields_advance.skip fun _ => yields_functionExpression hself true
    · exact yields_identifier.bind fun (name, place) => .some (by simp [held])
  · exact .giveUp

end Literals

section Operands

variable {self : Grammar} (hself : self.Yields)

include hself

omit hself in
theorem builds_linked {before parts : List Tree} {form : Form} (link : Link) (optional : Bool)
    (hform : form.isPlain = true) (hsub : parts.Sublist before) :
    Builds before (Pure.pure (some (Link.mk (.node form parts) optional)))
      fun next => [(next.getD link).tree] :=
  .pure (within_node (within_of_sublist hsub) hform)

theorem builds_memberRest (chains : Bool) (start : Link) :
    Builds [start.tree] (memberRest self chains start) held := by
  refine builds_iterate (fun link : Link => [link.tree]) (fun link => ?_) (List.Sublist.refl _)
  have hindex (optional : Bool) : Builds [link.tree] (do
      advance
      let index ← inside (self .expression)
      expect "]"
      return some (Link.mk (.node .member [link.tree, index]) optional))
      fun next => [(next.getD link).tree] := by
    refine yields_advance.skip fun _ => (yields_inside (hself _)).bind fun index => ?_
    exact (yields_expect _).skip fun _ => builds_linked link _ rfl (List.Sublist.refl _)
  refine yields_token.skip fun t => ?_
  split
  · refine yields_advance.skip fun _ => yields_token.skip fun t => ?_
    extract_lets last
    have hlast (u : Unit) : Builds [link.tree] (last u) fun next => [(next.getD link).tree] :=
      builds_linked link _ rfl (List.Sublist.refl _)
    split
    · exact yields_advance.skip hlast
    · exact yields_anyName.skip fun _ => hlast ()
  · exact yields_flags.skip fun _ => .ite (.some (by simp)) (hindex _)
  · extract_lets behind
    have hbehind (u : Unit) : Builds [link.tree] (behind u) fun next => [(next.getD link).tree] :=
      (yields_sees _).skip fun _ => .ite (hindex true) (.some (by simp))
    refine .ite (.some (by simp)) ((yields_nextIs _).skip fun _ => .ite (.some (by simp)) ?_)
    refine yields_advance.skip fun _ => yields_token.skip fun t => ?_
    split
    · exact hbehind ()
    · exact hbehind ()
    · exact yields_advance.skip fun _ => builds_linked link _ rfl (List.Sublist.refl _)
    · exact yields_anyName.skip fun _ => builds_linked link _ rfl (List.Sublist.refl _)
  · refine (yields_blameIf _).skip fun _ => (yields_templateLiteral hself true).bind fun parts => ?_
    exact builds_linked link _ rfl (List.Sublist.refl _)
  · refine yields_isTyped.skip fun _ => yields_afterBreak.skip fun _ => .ite (.some (by simp)) ?_
    exact yields_advance.skip fun _ => builds_linked link _ rfl (List.Sublist.refl _)
  · refine yields_isTyped.skip fun _ => .ite ?_ (.some (by simp))
    refine (yields_expressionArguments? hself).bind fun found => ?_
    cases found with
    | some types => exact builds_linked link _ rfl (List.Sublist.refl _)
    | none => exact .some (by simp)
  · exact .some (by simp)

theorem builds_callRest (start : Link) : Builds [start.tree] (callRest self start) held := by
  refine builds_iterate (fun link : Link => [link.tree]) (fun link => ?_) (List.Sublist.refl _)
  have hcalled (parts : List Tree) (optional : Bool) : Builds (link.tree :: parts) (do
      return some (← memberRest self true ⟨.of (link.tree :: parts), optional⟩))
      fun next => [(next.getD link).tree] := by
    have hcall : Within (link.tree :: parts) [.of (link.tree :: parts)] :=
      within_node (within_of_sublist (List.Sublist.refl _)) rfl
    have hmembers := builds_memberRest hself true ⟨.of (link.tree :: parts), optional⟩
    exact Builds.bind (hmembers.of_within hcall) fun whole => .some (List.Sublist.refl _)
  refine (yields_accept _).skip fun _ => .ite ?_ ((yields_sees _).skip fun _ => .ite ?_ ?_)
  · refine yields_isTyped.skip fun _ => ?_
    refine (yields_sees _).skip fun _ => (yields_sees _).skip fun _ => ?_
    extract_lets applied
    have happlied (types : List Tree) : Builds (link.tree :: types) (applied types)
        fun next => [(next.getD link).tree] :=
      (yields_arguments hself).bind fun args => hcalled (types ++ args) true
    exact .ite ((yields_typeArguments hself).bind happlied) (.pureBind (happlied []))
  · exact (yields_arguments hself).bind fun args => hcalled args _
  · exact .some (by simp)

theorem yields_leftHand : Yields (leftHand self) := by
  refine (yields_primary hself).bind fun first => ?_
  refine Builds.bind (builds_memberRest hself true ⟨first, false⟩) fun link => ?_
  refine Builds.bind (builds_callRest hself link) fun whole => ?_
  split
  · exact .node rfl (List.Sublist.refl _)
  · exact .some (List.Sublist.refl _)

theorem yields_callee : Yields (callee self) := by
  refine (yields_primary hself).bind fun first => ?_
  refine Builds.bind (builds_memberRest hself false ⟨first, false⟩) fun link => ?_
  exact .some (List.Sublist.refl _)

omit hself in
-- A place is a target.
theorem builds_place (tree : Tree) :
    Builds [tree] (place tree) fun target => [.node .update [target]] := by
  unfold place
  split
  · next target hplace => exact .pure (within_update (Tree.place?_converts hplace))
  · exact .giveUp

omit hself in
theorem yields_isUpdateMark : Yields isUpdateMark :=
  (yields_sees _).skip fun _ => (yields_sees _).skip fun _ => .nothing rfl

omit hself in
theorem yields_startsElement : Yields startsElement := by
  refine yields_get.skip fun _ => (yields_sees _).skip fun _ => ?_
  exact .ite (.nothing rfl) (yields_nextIs _)

theorem yields_update : Yields (update self) := by
  refine yields_isUpdateMark.skip fun _ => .ite ?_ ?_
  · refine yields_advance.skip fun _ => (hself _).bind fun tree => ?_
    exact Builds.bind (builds_place tree) fun target => .some (List.Sublist.refl _)
  refine yields_startsElement.skip fun _ => .ite (ElementGrammar.yields_element hself false) ?_
  refine (yields_leftHand hself).bind fun operand => yields_isUpdateMark.skip fun _ => ?_
  refine yields_afterBreak.skip fun _ => .ite ?_ (.some (List.Sublist.refl _))
  refine Builds.bind (builds_place operand) fun target => ?_
  exact yields_advance.skip fun _ => .some (List.Sublist.refl _)

theorem yields_unary : Yields (unary self) := by
  have hoperand (form : Form) (hform : form.isPlain = true) : Yields (do
      advance
      return Tree.node form [← self .unary]) :=
    yields_advance.skip fun _ => (hself _).bind fun tree => .node hform (List.Sublist.refl _)
  refine yields_token.skip fun t => ?_
  split
  · refine .ite (hoperand _ rfl) (yields_isTyped.skip fun _ => yields_get.skip fun _ => .ite ?_ ?_)
    · refine yields_advance.skip fun _ => (hself _).bind fun type => ?_
      refine (yields_expect _).skip fun _ => (hself _).bind fun tree => ?_
      exact .node rfl (List.Sublist.refl _)
    · exact yields_update hself
  · refine .ite (hoperand _ rfl) (yields_flags.skip fun _ => .ite (hoperand _ rfl) ?_)
    exact yields_update hself
  · exact yields_update hself

omit hself in
theorem builds_operation (operator : String) (left right : Tree) :
    Builds [left, right] (operation operator left right) held := by
  unfold operation
  split
  · exact (yields_blameIf _).skip fun _ => .node rfl (List.Sublist.refl _)
  · exact .node rfl (List.Sublist.refl _)
  · exact .node rfl (List.Sublist.refl _)
  · exact (yields_blameIf _).skip fun _ => .node rfl (List.Sublist.refl _)
  · exact .node rfl (List.Sublist.refl _)

theorem yields_privateTest (least : Nat) : Yields (privateTest self least) := by
  refine yields_advance.skip fun _ => ?_
  extract_lets last
  have hlast (u : Unit) : Builds [] (last u) held :=
    (yields_expectWord _).skip fun _ => (hself _).bind fun tree => .node rfl (by simp [held])
  exact .ite .giveUpBind (hlast ())

theorem yields_binary (least : Nat) : Yields (binary self least) := by
  refine yields_token.skip fun t => ?_
  extract_lets behind
  have hbehind (first : Tree) : Builds [first] (behind first) held := by
    refine builds_iterate (fun left : Tree => [left]) (fun left => ?_) (List.Sublist.refl _)
    refine yields_isTyped.skip fun _ => (yields_seesAny _).skip fun _ => ?_
    refine yields_afterBreak.skip fun _ => .ite (.ite (.some (by simp)) ?_) ?_
    · refine yields_advance.skip fun _ => (yields_seesWord _).skip fun _ => ?_
      extract_lets last
      have hlast (type : Tree) : Builds [left, type] (last type) fun next => [next.getD left] :=
        .pure (within_node (within_of_sublist (List.Sublist.refl _)) rfl)
      have hplain : Within [left] [left, .plain] :=
        nameless_plain.behind (within_of_sublist (List.Sublist.refl _))
      refine .ite (yields_advance.skip fun _ => .pureBind ?_) ((hself _).bind hlast)
      exact (hlast .plain).of_within hplain
    refine yields_wideMark.skip fun operator => .ite (.some (by simp)) ?_
    refine yields_flags.skip fun _ => .ite (.some (by simp)) ?_
    refine (yields_advanceWide _).skip fun _ => (hself _).bind fun right => ?_
    exact Builds.bind (builds_operation operator left right) fun _ => .some (by simp [held])
  split
  · refine yields_flags.skip fun _ => .ite ((yields_privateTest hself _).bind hbehind) .giveUpBind
  · exact (yields_unary hself).bind hbehind

end Operands

section Arrows

theorem yields_guessArrow : Yields guessArrow := yields_preview (fun _ => rfl) _ _

theorem yields_endsYield : Yields endsYield := by
  refine yields_afterBreak.skip fun _ => .ite (.nothing rfl) ?_
  refine yields_token.skip fun t => ?_
  split <;> exact .nothing rfl

variable {self : Grammar} (hself : self.Yields)

include hself

theorem yields_arrowHead : Yields (arrowHead self) := by
  refine (yields_acceptWord _).skip fun async => (yields_typeParameters hself).bind fun types => ?_
  refine (yields_under _ (yields_parameters hself)).bind fun params => ?_
  refine (yields_resultAnnotated hself).bind fun result => yields_afterBreak.skip fun _ => ?_
  exact (yields_blameIf _).skip fun _ => (yields_expect _).skip fun _ => .some (by simp [held])

theorem yields_arrowBody (async resultType : Bool) : Yields (arrowBody self async resultType) :=
  (yields_sees _).skip fun _ => .ite (yields_body hself async false) (yields_under _ (hself _))

omit hself in
theorem within_arrow (parts : List Tree) (code : Tree) :
    Within (parts ++ [code]) [arrow parts code] :=
  within_node (within_node (within_of_sublist (List.Sublist.refl _)) rfl) rfl

omit hself in
-- The only parameter is a name.
theorem within_arrow_bind (name : String) (code : Tree) :
    Within [code] [arrow [.leaf (.bind .block .value name)] code] :=
  within_node (within_node ((nameless_bind _ _ _).within (within_of_sublist (List.Sublist.refl _)))
    rfl) rfl

theorem yields_parenthesizedArrow? (resultType : Bool) :
    Yields (parenthesizedArrow? self resultType) := by
  refine yields_guessArrow.skip fun guess => ?_
  cases guess with
  | no => exact .nothing rfl
  | yes =>
    refine (yields_arrowHead hself).bind fun head => ?_
    exact (yields_arrowBody hself _ _).bind fun code => .pure (within_arrow head.parts code)
  | maybe =>
    refine yields_span.skip fun _ => yields_get.skip fun _ => .ite (.nothing rfl) ?_
    refine (yields_attemptOption ?_).bind fun found => ?_
    · refine (yields_arrowHead hself).bind fun head => ?_
      refine (yields_arrowBody hself _ _).bind fun code => (yields_sees _).skip fun _ => ?_
      exact .ite (.nothing rfl) (.pure (within_arrow head.parts code))
    · extract_lets last
      have hlast (u : Unit) : Builds (held found) (last u) held := .some (List.Sublist.refl _)
      refine .ite (Yields.skip ?_ hlast) (hlast ())
      exact yields_modify (fun _ => rfl) fun _ => rfl

theorem yields_asyncArrow? (resultType : Bool) : Yields (asyncArrow? self resultType) := by
  refine (yields_seesWord _).skip fun _ => .ite (.nothing rfl) ?_
  refine (yields_ahead _).skip fun _ => .ite (.nothing rfl) ?_
  refine yields_advance.skip fun _ => (yields_under _ yields_identifier).skip fun (name, _) => ?_
  refine (yields_expect _).skip fun _ => ?_
  refine (yields_arrowBody hself true resultType).bind fun code => ?_
  exact .pure (within_arrow_bind name code)

theorem yields_yieldExpression (resultType : Bool) : Yields (yieldExpression self resultType) := by
  refine (yields_expectWord _).skip fun _ => yields_endsYield.skip fun _ => .ite .plain ?_
  refine (yields_accept _).skip fun _ => (hself _).bind fun tree => ?_
  exact .node rfl (by simp [held])

end Arrows

section Assignments

variable {self : Grammar} (hself : self.Yields)

include hself

theorem builds_conditionalRest (condition : Tree) (resultType : Bool) :
    Builds [condition] (conditionalRest self condition resultType) held := by
  refine (yields_accept _).skip fun _ => .ite (.some (List.Sublist.refl _)) ?_
  refine (yields_inside (hself _)).bind fun yes => (yields_expect _).skip fun _ => ?_
  exact (hself _).bind fun no => .node rfl (List.Sublist.refl _)

theorem yields_assignment (resultType : Bool) : Yields (assignment self resultType) := by
  refine yields_flags.skip fun _ => (yields_seesWord _).skip fun _ => .ite ?_ ?_
  · exact yields_yieldExpression hself resultType
  refine (yields_parenthesizedArrow? hself resultType).bind fun found => ?_
  cases found with
  | some tree => exact .some (List.Sublist.refl _)
  | none =>
  refine (yields_asyncArrow? hself resultType).bind fun found => ?_
  cases found with
  | some tree => exact .some (List.Sublist.refl _)
  | none =>
  refine (yields_binary hself 0).bind fun left => ?_
  extract_lets choice behind
  have hchoice (u : Unit) : Builds [left] (choice u) held := builds_conditionalRest hself left _
  have hbehind (u : Unit) : Builds [left] (behind u) held := by
    refine yields_wideMark.skip fun mark => .ite ?_ (hchoice ())
    split
    · next target htarget =>
      have hconverts : Tree.Converts left target := by
        split at htarget
        · exact Tree.target?_converts htarget
        · exact Tree.place?_converts htarget
      refine (yields_advanceWide _).skip fun _ => (hself _).bind fun value => ?_
      exact .pure (within_assign _ hconverts)
    · exact .giveUpBind
  split
  · next space name span parts =>
    refine (yields_sees _).skip fun _ => .ite ?_ (hbehind ())
    refine yields_afterBreak.skip fun _ => (yields_blameIf _).skip fun _ => ?_
    refine yields_advance.skip fun _ => ?_
    refine (yields_arrowBody hself false resultType).bind fun code => ?_
    exact .of_sublist (.pure (within_arrow_bind name code)) (List.sublist_cons_self _ _)
  · exact hbehind ()

theorem yields_expression : Yields (expression self) := by
  refine (hself _).bind fun first => (yields_sees _).skip fun _ => .ite ?_ ?_
  · refine Yields.bind (yields_collect ?_) fun rest => .node rfl (List.Sublist.refl _)
    refine (yields_accept _).skip fun _ => .ite ?_ (.nothing rfl)
    exact (hself _).bind fun tree => .some (by simp [held])
  · exact .some (List.Sublist.refl _)

end Assignments

end Treeshake.Ecma.ExpressionGrammar
