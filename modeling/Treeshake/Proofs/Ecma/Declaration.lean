import Treeshake.Ecma.Declaration
import Treeshake.Proofs.Ecma.Statement

namespace Treeshake.Ecma.DeclarationGrammar

open Treeshake.Ecma.Parser Signature TypeGrammar ClassGrammar StatementGrammar

variable {self : Grammar} (hself : self.Yields)

-- A declared name beside the scope of what belongs to it.
theorem within_declared (space : Space) (name : String) (parts : List Tree) :
    Within parts [.of [.leaf (.bind .block space name), .node (.scope .block) parts]] := by
  have hscope : Within parts [.node (.scope .block) parts] :=
    within_node (within_of_sublist (List.Sublist.refl _)) rfl
  exact within_node ((nameless_bind .block space name).within hscope) rfl

theorem yields_enumName : Yields enumName := by
  have hnamed (text : String) : Builds [] (Pure.pure [Tree.leaf (.bind .block .value text)]) held :=
    .nameless (nameless_bind _ _ _)
  unfold enumName
  extract_lets named
  refine yields_token.skip fun t => ?_
  split
  · exact yields_advanceName.skip fun _ => hnamed _
  · exact yields_advance.skip fun _ => hnamed _
  · refine yields_advance.skip fun _ => yields_token.skip fun t => ?_
    split
    · exact yields_advance.skip fun _ => (yields_expect _).skip fun _ => hnamed _
    · refine yields_advance.skip fun _ => (yields_blameIf _).skip fun _ => ?_
      exact (yields_expect _).skip fun _ => .nothing rfl
    · exact .giveUp
  · exact .giveUp

theorem yields_startsWithin (fuel : Nat) : Yields (startsWithin fuel) := by
  cases fuel with
  | zero => exact .nothing rfl
  | succ fuel =>
    refine yields_token.skip fun t => ?_
    split
    · exact yields_nextOnLineIs _
    · exact yields_nextOnLineIs _
    · exact yields_nextOnLineIs _
    · exact yields_nextOnLineIs _
    · exact yields_nextIs _
    · exact yields_nextIs _
    · refine .ite (.nothing rfl) (.ite (yields_nextOnLineIs _) (.nothing rfl))
    · exact .nothing rfl

theorem yields_startsDeclaration : Yields startsDeclaration :=
  yields_get.skip fun _ => yields_startsWithin _

include hself

theorem yields_interface : Yields (interface self) := by
  refine (yields_expectWord _).skip fun _ => yields_identifier.skip fun (name, _) => ?_
  refine (yields_typeParameters hself).bind fun types => (yields_acceptWord _).skip fun _ => ?_
  extract_lets last
  have hlast (bases : List Tree) : Builds (types ++ bases) (last bases) held :=
    (yields_members hself).bind fun body => .pure (within_declared .type name _)
  refine .ite ((yields_reference hself).bind fun first => Yields.bind (yields_collect ?_) ?_) ?_
  · refine (yields_accept _).skip fun _ => .ite ?_ (.nothing rfl)
    exact (yields_reference hself).bind fun tree => .some (by simp [held])
  · exact fun rest => .pureBind ((hlast (first :: rest)).of_sublist (by simp [held]))
  · exact .pureBind ((hlast []).of_sublist (by simp [held]))

theorem yields_typeAlias : Yields (typeAlias self) := by
  refine (yields_expectWord _).skip fun _ => yields_identifier.skip fun (name, _) => ?_
  refine (yields_typeParameters hself).bind fun types => (yields_expect _).skip fun _ => ?_
  refine (hself _).bind fun value => yields_endStatement.skip fun _ => ?_
  exact .pure (within_declared .type name _)

theorem yields_enumMember : Yields (enumMember self) := by
  refine yields_enumName.bind fun name => (yields_initializer hself).bind fun value => ?_
  exact .node rfl (List.Sublist.refl _)

theorem yields_enumeration : Yields (enumeration self) := by
  refine (yields_acceptWord _).skip fun _ => (yields_expectWord _).skip fun _ => ?_
  refine yields_identifier.skip fun (name, _) => ?_
  refine (yields_enclosed _ _ (yields_enumMember hself)).bind fun body => ?_
  exact .pure (within_declared .both name body)

theorem yields_namespaceDeclaration : Yields (namespaceDeclaration self) := by
  refine (yields_acceptWord _).skip fun _ => ?_
  extract_lets bare bodied named
  have hbare (u : Unit) : Builds [] (bare u) held := yields_endStatement.skip fun _ => .plain
  have hbodied (own : List String) : Builds [] (bodied own) held := by
    refine (yields_sees _).skip fun _ => .ite ?_ (.ite .giveUpBind (hbare ()))
    refine (yields_under _ (yields_block hself _)).bind fun body => .pure (within_node ?_ rfl)
    exact (nameless_binds .block _ own).within (within_of_sublist (List.Sublist.refl _))
  have hnamed (u : Unit) : Builds [] (named u) held := by
    refine yields_token.skip fun t => ?_
    split
    · exact yields_advance.skip fun _ => .pureBind (hbodied [])
    · refine yields_identifier.skip fun (name, _) => Yields.skip (yields_collect ?_) fun _ => ?_
      · refine (yields_accept _).skip fun _ => .ite ?_ (.nothing rfl)
        exact yields_anyName.skip fun _ => .foundPlain
      · exact .pureBind (hbodied [name])
  refine .ite (.pureBind (hbodied [])) ?_
  refine (yields_or (yields_acceptWord _) (yields_acceptWord _)).skip fun _ => ?_
  exact .ite .giveUpBind (hnamed ())

theorem yields_declaration : Yields (declaration self) := by
  refine yields_token.skip fun t => ?_
  split
  · exact yields_interface hself
  · exact yields_typeAlias hself
  · exact yields_enumeration hself
  · exact yields_namespaceDeclaration hself
  · exact yields_namespaceDeclaration hself
  · exact yields_namespaceDeclaration hself
  · exact yields_advance.skip fun _ => yields_classDeclaration hself true
  · exact yields_advance.skip fun _ => yields_under _ (hself _)
  · exact .giveUp

end Treeshake.Ecma.DeclarationGrammar
