import Treeshake.Ecma.Script
import Treeshake.Proofs.Ecma.Module
import Treeshake.Proofs.Ecma.Reference

namespace Treeshake.Ecma

open Treeshake.Ecma.Parser Signature TypeGrammar ClassGrammar ExpressionGrammar StatementGrammar
  DeclarationGrammar ModuleGrammar

section Grammar

variable {self : Grammar} (hself : self.Yields)

include hself

theorem yields_statementOf (single : Bool) : Yields (statementOf self single) := by
  have hlabel : Yields (expressionOrLabel self) := yields_expressionOrLabel hself
  refine yields_token.skip fun t => ?_
  split
  · exact yields_blockStatement hself
  · exact yields_advance.skip fun _ => .plain
  · refine (yields_decorators hself).bind fun marks => (yields_seesWord _).skip fun _ => .ite ?_ ?_
    · exact (yields_exportDeclaration hself).bind fun tree => .node rfl (List.Sublist.refl _)
    refine yields_isTyped.skip fun _ => (yields_seesWord _).skip fun _ => .ite ?_ ?_
    · exact (yields_declaration hself).bind fun tree => .node rfl (List.Sublist.refl _)
    · exact (yields_classStatement hself _).bind fun tree => .node rfl (List.Sublist.refl _)
  · split
    · exact yields_ifStatement hself
    · exact yields_doStatement hself
    · exact yields_whileStatement hself
    · exact yields_forStatement hself
    · exact yields_jumpStatement
    · exact yields_jumpStatement
    · exact yields_withStatement hself
    · exact yields_switchStatement hself
    · exact yields_throwStatement hself
    · exact yields_tryStatement hself
    · exact yields_advance.skip fun _ => yields_endStatement.skip fun _ => .plain
    · exact yields_classStatement hself _
    · exact yields_exportDeclaration hself
    · exact yields_returnStatement hself
    · exact yields_variableStatement hself _
    · exact yields_functionStatement hself _
    · refine yields_isTyped.skip fun _ => (yields_nextIs _).skip fun _ => .ite ?_ ?_
      · exact yields_enumeration hself
      · exact yields_variableStatement hself _
    · exact yields_get.skip fun _ => .ite hlabel (yields_letStatement hself _)
    · exact (yields_nextOnLineIs _).skip fun _ => .ite (yields_functionStatement hself _) hlabel
    · refine (yields_nextIs _).skip fun _ => .ite ?_ yields_importDeclaration
      exact yields_expressionStatement hself
    · exact (yields_nextOnLineIs _).skip fun _ => .ite (yields_variableStatement hself _) hlabel
    · refine yields_flags.skip fun _ => (yields_nextOnLineIs _).skip fun _ => .ite ?_ hlabel
      exact yields_variableStatement hself _
    · refine yields_isTyped.skip fun _ => yields_startsDeclaration.skip fun _ => .ite ?_ hlabel
      exact yields_declaration hself
  · exact hlabel

theorem yields_rules : (rules self).Yields := by
  intro rule
  cases rule with
  | statement single => exact yields_statementOf hself single
  | expression => exact yields_expression hself
  | assignment resultType => exact yields_assignment hself resultType
  | binary least => exact yields_binary hself least
  | unary => exact yields_unary hself
  | leftHand => exact yields_leftHand hself
  | callee => exact yields_callee hself
  | pattern reach => exact yields_pattern hself reach
  | type => exact yields_type hself
  | element inChild => exact ElementGrammar.yields_element hself inChild

theorem yields_statementsToEnd : Yields (statementsToEnd self) := by
  refine yields_collect (yields_seesEnd.skip fun _ => .ite (.nothing rfl) ?_)
  exact (hself _).bind fun tree => .some (by simp [held])

end Grammar

theorem yields_grammar (depth : Nat) : (grammar depth).Yields := by
  induction depth with
  | zero => exact fun _ => .giveUp
  | succ depth ih => exact yields_rules ih

theorem holds_initial (dialect : Dialect) (goal : Goal) (ambient : Bool) (source : List Char) :
    (initial dialect goal ambient source).Holds source 0 [] := by
  obtain ⟨hafter, hstands, -⟩ :=
    Lexer.scans_next source (Lexer.start source) (Lexer.inSource_start source)
  exact ⟨hafter, hstands, Nat.zero_le _, by simp⟩

namespace Script

variable {dialect : Dialect} {ambient : Bool} {source : List Char} {script : Script}

-- A tree that belongs to a source.
structure Fits (source : List Char) (tree : Tree) : Prop where
  laid : ∃ high, Laid source 0 tree.names high
  placed : tree.Placed false

theorem fits_of_parseAs? {goal : Goal} (h : parseAs? dialect ambient source goal = some script) :
    Fits source script.tree := by
  unfold parseAs? at h
  dsimp only at h
  split at h
  · next body s hrun =>
    have hbody := yields_statementsToEnd (yields_grammar _) _ source 0 body s hrun
      (holds_initial dialect goal ambient source)
    have htree : s.Holds source 0 [.node (.scope .body) body] :=
      hbody.within (within_node (within_of_sublist (List.Sublist.refl _)) rfl)
    split at h
    · obtain rfl := Option.some.inj h
      exact ⟨⟨_, by simpa using htree.laid⟩, htree.placed _ (List.mem_singleton_self _)⟩
    · cases h
  · cases h

theorem fits_of_parse? {kind : Kind} (h : parse? dialect kind ambient source = some script) :
    Fits source script.tree := by
  unfold parse? at h
  cases kind with
  | module => exact fits_of_parseAs? h
  | common => exact fits_of_parseAs? h
  | ambiguous =>
    dsimp only at h
    split at h
    · next found hfound =>
      split at h
      · obtain rfl := Option.some.inj h
        exact fits_of_parseAs? hfound
      · exact fits_of_parseAs? h
    · exact fits_of_parseAs? (Option.filter_eq_some_iff.mp h).1

section Fits

variable {text : List Char} {tree : Tree}

theorem Fits.laid_references (h : Fits text tree) :
    ∃ high, Laid text 0 ((tree.references false []).map fun r => (r.name, r.span)) high := by
  obtain ⟨high, hlaid⟩ := h.laid
  exact ⟨high, hlaid.sublist (Tree.references_sublist_all.1 false [] tree)⟩

theorem Fits.spelled (h : Fits text tree) {r : Reference} (hmem : r ∈ tree.references false []) :
    Spelled text r.name r.span := by
  obtain ⟨high, hlaid⟩ := h.laid_references
  exact hlaid.spelled (List.mem_map_of_mem hmem)

theorem Fits.pairwise_references (h : Fits text tree) :
    (tree.references false []).Pairwise fun a b => a.span.stop ≤ b.span.start := by
  obtain ⟨high, hlaid⟩ := h.laid_references
  exact List.pairwise_map.mp hlaid.pairwise

end Fits

end Script

end Treeshake.Ecma
