import Treeshake.Ecma.Statement
import Treeshake.Proofs.Ecma.Expression

namespace Treeshake.Ecma.StatementGrammar

open Treeshake.Ecma.Parser Signature ClassGrammar ExpressionGrammar

variable {self : Grammar} (hself : self.Yields)

section Variables

include hself

theorem yields_declarator (reach : Reach) (needsValue inHead : Bool) :
    Yields (declarator self reach needsValue inHead) := by
  refine (yields_sees _).skip fun _ => (yields_sees _).skip fun _ => ?_
  extract_lets isPattern
  refine (hself _).bind fun target => yields_isTyped.skip fun _ => ?_
  extract_lets behind
  have hbehind (definite : Bool) : Builds [target] (behind definite) held := by
    refine (yields_annotated hself).bind fun type => (yields_accept _).skip fun _ => ?_
    extract_lets valued
    have hvalued (value : List Tree) : Builds (target :: type ++ value) (valued value) held := by
      refine yields_flags.skip fun f => ?_
      extract_lets missing last
      have hlast (u : Unit) : Builds (target :: type ++ value) (last u) held :=
        .pure (within_node (within_of_sublist (List.Sublist.refl _)) rfl)
      exact .ite ((yields_blameIf _).skip hlast) (hlast ())
    refine .ite ((hself _).bind fun value => .pureBind (hvalued [value])) ?_
    exact .pureBind ((hvalued []).of_sublist (by simp [held]))
  exact .ite ((yields_accept _).skip hbehind) (.pureBind (hbehind false))

theorem yields_declarators (reach : Reach) (needsValue inHead : Bool) :
    Yields (declarators self reach needsValue inHead) := by
  have hitem := yields_declarator hself reach needsValue inHead
  refine hitem.bind fun first => ?_
  refine Builds.step (builds_iterate (fun state => state.1.reverse) ?_ (by simp))
    fun (rest, missing) => ?_
  · rintro ⟨done, missing⟩
    refine (yields_accept _).skip fun _ => .ite ?_ (.some (by simp))
    exact hitem.bind fun (tree, m) => .some (by simp [held])
  · exact .pure (within_node (within_of_sublist (by simp [held])) rfl)

theorem yields_declarations (place : Place) : Yields (declarations self place) := by
  refine (yields_acceptWord _).skip fun _ => .ite (yields_declarators hself _ _ _) ?_
  refine (yields_acceptWord _).skip fun _ => .ite (yields_declarators hself _ _ _) ?_
  refine (yields_acceptWord _).skip fun _ => .ite (yields_declarators hself _ _ _) ?_
  refine (yields_acceptWord _).skip fun _ => (yields_expectWord _).skip fun _ => ?_
  exact yields_declarators hself _ _ _

theorem yields_variableStatement (place : Place) : Yields (variableStatement self place) := by
  refine (yields_seesWord _).skip fun _ => ?_
  refine (yields_declarations hself place).bind fun (tree, _) => ?_
  exact yields_endStatement.skip fun _ => (yields_blameIf _).skip fun _ => .some (by simp [held])

theorem yields_expressionStatement : Yields (expressionStatement self) :=
  (hself _).bind fun tree => yields_endStatement.skip fun _ => .some (by simp)

theorem yields_letStatement (single : Bool) : Yields (letStatement self single) := by
  refine (yields_nextIs _).skip fun _ => (yields_nextIs _).skip fun _ => ?_
  refine (yields_nextIs _).skip fun _ => (yields_nextIs _).skip fun _ => .ite (.ite ?_ ?_) ?_
  · refine yields_identifier.bind fun (name, place) => yields_endStatement.skip fun _ => ?_
    exact .some (by simp [held])
  · exact yields_expressionStatement hself
  · exact yields_variableStatement hself _

end Variables

section Branches

include hself

theorem yields_blockStatement : Yields (blockStatement self) := yields_block hself _

theorem yields_condition : Yields (condition self) := by
  refine (yields_expect _).skip fun _ => (yields_inside (hself _)).bind fun tree => ?_
  exact (yields_expect _).skip fun _ => .some (by simp)

theorem yields_ifStatement : Yields (ifStatement self) := by
  refine (yields_expectWord _).skip fun _ => (yields_condition hself).bind fun test => ?_
  refine (hself _).bind fun yes => (yields_acceptWord _).skip fun _ => ?_
  extract_lets last
  have hlast (no : List Tree) : Builds (test :: yes :: no) (last no) held :=
    .node rfl (List.Sublist.refl _)
  exact .ite ((hself _).bind fun no => .pureBind (hlast [no])) (.pureBind (hlast []))

theorem yields_doStatement : Yields (doStatement self) := by
  refine (yields_expectWord _).skip fun _ => (hself _).bind fun code => ?_
  refine (yields_expectWord _).skip fun _ => (yields_condition hself).bind fun test => ?_
  exact (yields_accept _).skip fun _ => .node rfl (List.Sublist.refl _)

theorem yields_whileStatement : Yields (whileStatement self) := by
  refine (yields_expectWord _).skip fun _ => (yields_condition hself).bind fun test => ?_
  exact (hself _).bind fun code => .node rfl (List.Sublist.refl _)

theorem yields_returnStatement : Yields (returnStatement self) := by
  refine yields_flags.skip fun _ => (yields_blameIf _).skip fun _ => ?_
  refine (yields_expectWord _).skip fun _ => yields_canEnd.skip fun _ => ?_
  extract_lets last
  have hlast (value : List Tree) : Builds value (last value) held :=
    yields_endStatement.skip fun _ => .node rfl (List.Sublist.refl _)
  refine .ite (.pureBind (hlast [])) ?_
  exact (yields_inside (hself _)).bind fun value => .pureBind (hlast [value])

theorem yields_withStatement : Yields (withStatement self) := by
  refine (yields_expectWord _).skip fun _ => (yields_condition hself).bind fun subject => ?_
  exact (hself _).bind fun code => .node rfl (List.Sublist.refl _)

theorem yields_caseClause : Yields (caseClause self) := by
  refine (yields_sees _).skip fun _ => yields_seesEnd.skip fun _ => .ite (.nothing rfl) ?_
  refine (yields_acceptWord _).skip fun _ => ?_
  extract_lets last
  have hlast (test : List Tree) : Builds test (last test) held := by
    refine (yields_expect _).skip fun _ => Yields.bind (yields_collect ?_) fun code => ?_
    · refine (yields_sees _).skip fun _ => (yields_seesAny _).skip fun _ => ?_
      refine yields_seesEnd.skip fun _ => .ite (.nothing rfl) ?_
      exact (hself _).bind fun tree => .some (by simp [held])
    · exact .found rfl (List.Sublist.refl _)
  refine .ite (.pureBind (hlast [])) ((yields_expectWord _).skip fun _ => ?_)
  exact (yields_inside (hself _)).bind fun test => .pureBind (hlast [test])

theorem yields_switchStatement : Yields (switchStatement self) := by
  refine (yields_expectWord _).skip fun _ => (yields_condition hself).bind fun subject => ?_
  refine (yields_expect _).skip fun _ => ?_
  refine (yields_collect (yields_caseClause hself)).bind fun cases => ?_
  refine (yields_expect _).skip fun _ => ?_
  have hcases : Within cases [.node (.scope .block) cases] :=
    within_node (within_of_sublist (List.Sublist.refl _)) rfl
  exact .pure (within_node (hcases.cons subject) rfl)

theorem yields_throwStatement : Yields (throwStatement self) := by
  refine (yields_expectWord _).skip fun _ => yields_afterBreak.skip fun _ => ?_
  refine (yields_blameIf _).skip fun _ => (yields_inside (hself _)).bind fun value => ?_
  exact yields_endStatement.skip fun _ => .some (by simp)

theorem yields_catchClause : Yields (catchClause self) := by
  refine (yields_acceptWord _).skip fun _ => .ite ?_ (.nothing rfl)
  refine (yields_accept _).skip fun _ => ?_
  extract_lets last
  have hlast (param : List Tree) : Builds param (last param) held := by
    refine (yields_blockStatement hself).bind fun code => .pure (within_node ?_ rfl)
    exact within_of_sublist (List.Sublist.refl _)
  refine .ite ((hself _).bind fun target => (yields_annotated hself).bind fun type => ?_)
    (.pureBind (hlast []))
  exact (yields_expect _).skip fun _ => .pureBind (hlast (target :: type))

theorem yields_tryStatement : Yields (tryStatement self) := by
  refine (yields_expectWord _).skip fun _ => (yields_blockStatement hself).bind fun code => ?_
  refine (yields_catchClause hself).bind fun handler => (yields_acceptWord _).skip fun _ => ?_
  extract_lets behind
  have hbehind (last : List Tree) : Builds (code :: handler ++ last) (behind last) held :=
    (yields_blameIf _).skip fun _ => .node rfl (List.Sublist.refl _)
  refine .ite ((yields_blockStatement hself).bind fun last => .pureBind (hbehind [last])) ?_
  exact .pureBind ((hbehind []).of_sublist (by simp [held]))

omit hself in
theorem yields_jumpStatement : Yields jumpStatement := by
  refine yields_advance.skip fun _ => yields_canEnd.skip fun _ => ?_
  extract_lets last
  have hlast (u : Unit) : Builds [] (last u) held := yields_endStatement.skip fun _ => .plain
  exact .ite (yields_identifier.skip fun _ => hlast ()) (hlast ())

theorem yields_functionStatement (single : Bool) : Yields (functionStatement self single) := by
  refine Builds.step (builds_functionDeclaration hself true) fun (tree, isPlain) => ?_
  exact (yields_blameIf _).skip fun _ => .some (by simp [held])

theorem yields_classStatement (single : Bool) : Yields (classStatement self single) :=
  (yields_blameIf _).skip fun _ => yields_classDeclaration hself true

theorem yields_expressionOrLabel : Yields (expressionOrLabel self) := by
  refine (hself _).bind fun tree => ?_
  refine (yields_and ?_ (yields_accept _)).skip fun _ => .ite (hself _).last ?_
  · exact .nothing rfl
  · exact yields_endStatement.skip fun _ => .some (List.Sublist.refl _)

end Branches

section Loops

theorem yields_startsLoopDeclaration : Yields startsLoopDeclaration := by
  refine (yields_seesAny _).skip fun _ => .ite (.nothing rfl) ?_
  refine (yields_seesWord _).skip fun _ => (yields_nextIs _).skip fun _ => ?_
  refine .ite (.nothing rfl) ((yields_seesWord _).skip fun _ => ?_)
  refine (yields_nextOnLineIs _).skip fun _ => (yields_nextIs _).skip fun _ => ?_
  refine .ite (.nothing rfl) (yields_flags.skip fun _ => ?_)
  refine (yields_seesWord _).skip fun _ => (yields_nextOnLineIs _).skip fun _ => ?_
  exact .ite (.nothing rfl) (.nothing rfl)

include hself

theorem yields_loopSteps : Yields (loopSteps self) := by
  refine (yields_expect _).skip fun _ => (yields_sees _).skip fun _ => ?_
  extract_lets behind
  have hbehind (test : List Tree) : Builds test (behind test) held := by
    refine (yields_expect _).skip fun _ => (yields_sees _).skip fun _ => ?_
    extract_lets last
    have hlast (step : List Tree) : Builds (test ++ step) (last step) held :=
      .some (List.Sublist.refl _)
    refine .ite (.pureBind ((hlast []).of_sublist (by simp))) ?_
    exact (yields_inside (hself _)).bind fun step => .pureBind (hlast [step])
  refine .ite (.pureBind (hbehind [])) ?_
  exact (yields_inside (hself _)).bind fun test => .pureBind (hbehind [test])

theorem yields_loopSource (awaited : Bool) : Yields (loopSource self awaited) := by
  refine (yields_seesWord _).skip fun _ => .ite ?_ ((yields_seesWord _).skip fun _ => .ite ?_ ?_)
  · refine (yields_blameIf _).skip fun _ => yields_advance.skip fun _ => ?_
    exact (yields_inside (hself _)).bind fun source => .some (by simp [held])
  · refine yields_advance.skip fun _ => ?_
    exact (yields_inside (hself _)).bind fun source => .some (by simp [held])
  · exact .nothing rfl

omit hself in
-- What a loop goes through is assigned to a target.
theorem within_each {tree target source : Tree} (h : Tree.Converts tree target) :
    Within [tree, source] [.node .each [target, source]] := by
  refine ⟨by simpa [Form.name?] using h.names, fun hplaced => ?_⟩
  simpa [Tree.placed_each] using ⟨h.placed (hplaced tree (by simp)), hplaced source (by simp)⟩

theorem yields_loopHead (awaited : Bool) : Yields (loopHead self awaited) := by
  refine (yields_sees _).skip fun _ => .ite ?_ ?_
  · exact (yields_blameIf _).skip fun _ => yields_loopSteps hself
  refine yields_startsLoopDeclaration.skip fun _ => .ite ?_ ?_
  · refine (yields_under _ (yields_declarations hself _)).bind fun (head, missing) => ?_
    refine (yields_loopSource hself awaited).bind fun found => ?_
    cases found with
    | some source => exact .some (by simp [held])
    | none =>
      refine (yields_blameIf _).skip fun _ => (yields_loopSteps hself).bind fun steps => ?_
      exact .some (by simp [held])
  refine (yields_seesWord _).skip fun _ => (yields_nextIs _).skip fun _ => ?_
  refine (yields_seesWord _).skip fun _ => (yields_under _ (hself _)).bind fun head => ?_
  refine (yields_seesWord _).skip fun _ => ?_
  extract_lets behind
  have hbehind (u : Unit) : Builds [head] (behind u) held := by
    refine (yields_seesAny _).skip fun _ => .ite ?_ ?_
    · split
      · next target htarget =>
        refine (yields_loopSource hself awaited).bind fun found => ?_
        cases found with
        | some source => exact .pure (within_each (Tree.target?_converts htarget))
        | none => exact .giveUp
      · exact .giveUp
    · refine (yields_blameIf _).skip fun _ => (yields_loopSteps hself).bind fun steps => ?_
      exact .some (List.Sublist.refl _)
  exact .ite ((yields_blameIf _).skip hbehind) (hbehind ())

theorem yields_forStatement : Yields (forStatement self) := by
  refine (yields_expectWord _).skip fun _ => (yields_seesWord _).skip fun _ => ?_
  extract_lets behind
  have hbehind (awaited : Bool) : Builds [] (behind awaited) held := by
    refine (yields_expect _).skip fun _ => (yields_loopHead hself awaited).bind fun head => ?_
    refine (yields_expect _).skip fun _ => (hself _).bind fun code => ?_
    exact .node rfl (List.Sublist.refl _)
  refine .ite (yields_flags.skip fun _ => ?_) (.pureBind (hbehind false))
  exact (yields_blameIf _).skip fun _ => yields_advance.skip fun _ => .pureBind (hbehind true)

end Loops

end Treeshake.Ecma.StatementGrammar
