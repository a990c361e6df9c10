import Treeshake.Ecma.Module
import Treeshake.Proofs.Ecma.Declaration

namespace Treeshake.Ecma.ModuleGrammar

open Treeshake.Ecma.Parser Signature TypeGrammar ClassGrammar StatementGrammar DeclarationGrammar

-- A string names nothing here.
instance : Held OuterName :=
  ⟨fun name => if name.isString then [] else [.leaf (.use .value name.text name.place)]⟩

instance : Held ExportSpecifier := ⟨fun specifier => held specifier.inner⟩

section Names

theorem yields_exportName (name : String) : Yields (exportName name) := by
  refine yields_get.skip fun s => .ite ((yields_blameIf _).skip fun _ => ?_) (.nothing rfl)
  exact yields_modify (fun _ => rfl) fun _ => rfl

theorem yields_markModule : Yields markModule := yields_modify (fun _ => rfl) fun _ => rfl

theorem yields_moduleName : Yields moduleName := by
  refine yields_token.skip fun t => ?_
  split
  · exact yields_advance
  · exact .giveUp

theorem yields_attributes : Yields attributes := by
  refine (yields_seesWord _).skip fun _ => ?_
  extract_lets valued behind
  have hvalued (u : Unit) : Builds [] (valued u) held :=
    (yields_expect _).skip fun _ => yields_moduleName.skip fun _ => .plain
  have hbehind (present : Bool) : Builds [] (behind present) held := by
    refine .ite (yields_advance.skip fun _ => ?_) (.nothing rfl)
    refine Yields.skip (yields_enclosed _ _ (yields_token.skip fun t => ?_)) fun _ => ?_
    · split
      · exact yields_advanceName.skip hvalued
      · exact yields_advance.skip hvalued
      · exact .giveUpBind
    · exact .nothing rfl
  refine (yields_seesWord _).skip fun _ => .ite (.pureBind (hbehind true)) (.ite ?_ ?_)
  · exact yields_afterBreak.skip fun _ => .pureBind (hbehind _)
  · exact .pureBind (hbehind false)

theorem yields_outerName : Yields outerName := by
  refine yields_token.skip fun t => ?_
  split
  · refine yields_span.skip fun place => yields_advance.skip fun _ => .nothing rfl
  · exact yields_placedName.bind fun (text, place) => .some (by simp [held])

theorem yields_typeModifier : Yields typeModifier := by
  refine yields_isTyped.skip fun _ => (yields_seesWord _).skip fun _ => ?_
  exact .ite (.nothing rfl) (yields_nextIs _)

theorem yields_importModifier (word : String) : Yields (importModifier word) :=
  (yields_seesWord _).skip fun _ => .ite (.nothing rfl) (yields_nextIs _)

theorem yields_startsExported : Yields startsExported := by
  refine (yields_seesAny _).skip fun _ => .ite (.nothing rfl) ?_
  refine (yields_seesWord _).skip fun _ => (yields_nextOnLineIs _).skip fun _ => ?_
  refine .ite (.nothing rfl) ((yields_sees _).skip fun _ => .ite (.nothing rfl) ?_)
  refine yields_isTyped.skip fun _ => yields_startsDeclaration.skip fun _ => ?_
  exact (yields_seesWord _).skip fun _ => .nothing rfl

end Names

section Imports

theorem yields_importSpecifier (space : Space) : Yields (importSpecifier space) := by
  have hbound (space : Space) (name : String) :
      Builds [] (Pure.pure (Tree.leaf (.bind .block space name))) held :=
    .nameless (nameless_bind _ _ _)
  refine yields_typeModifier.skip fun _ => ?_
  extract_lets behind
  have hbehind (space : Space) : Builds [] (behind space) held := by
    refine yields_outerName.skip fun outer => (yields_acceptWord _).skip fun _ => .ite ?_ ?_
    · exact yields_identifier.skip fun (name, _) => hbound _ name
    · exact .ite .giveUpBind ((yields_checkIdentifier _).skip fun _ => hbound _ _)
  exact .ite (yields_advance.skip fun _ => .pureBind (hbehind _)) (.pureBind (hbehind _))

theorem yields_importClause (space : Space) : Yields (importClause space) := by
  refine yields_isIdentifier.skip fun _ => ?_
  extract_lets behind
  have hbehind (default : List Tree) : Builds default (behind default) held := by
    have hlast : Builds default (do
        if ← accept "*" then
          expectWord "as"
          let named ← identifier
          return default ++ [.leaf (.bind .block space named.1)]
        return default ++ (← enclosed "\x7b" "\x7d" (importSpecifier space))) held := by
      refine (yields_accept _).skip fun _ => .ite ?_ ?_
      · refine (yields_expectWord _).skip fun _ => yields_identifier.skip fun named => ?_
        refine .pure ((nameless_bind .block space named.1).behind ?_)
        exact within_of_sublist (List.Sublist.refl _)
      · refine (yields_enclosed _ _ (yields_importSpecifier space)).bind fun names => ?_
        exact .some (List.Sublist.refl _)
    exact .ite ((yields_accept _).skip fun _ => .ite (.some (List.Sublist.refl _)) hlast) hlast
  refine .ite (yields_identifier.skip fun named => .pureBind ?_) (.pureBind (hbehind []))
  exact (hbehind _).of_nameless (nameless_bind _ _ _)

theorem yields_importAlias (space : Space) : Yields (importAlias space) := by
  refine yields_identifier.skip fun (name, _) => (yields_expect _).skip fun _ => ?_
  refine (yields_seesWord _).skip fun _ => (yields_nextIs _).skip fun _ => ?_
  extract_lets last
  have hlast (value : Tree) : Builds [value] (last value) held :=
    yields_endStatement.skip fun _ =>
      .declare rfl (nameless_bind _ _ _) rfl (List.Sublist.refl _)
  refine .ite (yields_advance.skip fun _ => (yields_expect _).skip fun _ => ?_)
    ((yields_entityName _).bind hlast)
  refine yields_moduleName.skip fun _ => (yields_expect _).skip fun _ => .pureBind ?_
  exact (hlast .plain).of_nameless nameless_plain

theorem yields_importDeclaration : Yields importDeclaration := by
  refine (yields_expectWord _).skip fun _ => yields_markModule.skip fun _ => ?_
  refine yields_token.skip fun t => ?_
  split
  · refine yields_advance.skip fun _ => yields_attributes.skip fun _ => ?_
    exact yields_endStatement.skip fun _ => .plain
  · refine yields_isTyped.skip fun _ => (yields_importModifier _).skip fun _ => ?_
    extract_lets isType space behind
    have hbehind (u : Unit) : Builds [] (behind u) held := by
      refine yields_isTyped.skip fun _ => yields_isIdentifier.skip fun _ => ?_
      refine (yields_nextIs _).skip fun _ => .ite (yields_importAlias _) ?_
      refine (yields_importClause _).bind fun names => (yields_expectWord _).skip fun _ => ?_
      refine yields_moduleName.skip fun _ => yields_attributes.skip fun _ => ?_
      exact yields_endStatement.skip fun _ => .node rfl (List.Sublist.refl _)
    refine (yields_importModifier _).skip fun _ => (yields_importModifier _).skip fun _ => ?_
    exact .ite (yields_advance.skip hbehind) (hbehind ())

end Imports

section Exports

theorem yields_exportSpecifier : Yields exportSpecifier := by
  refine yields_typeModifier.skip fun isType => ?_
  extract_lets behind
  have hbehind (u : Unit) : Builds [] (behind u) held := by
    refine yields_outerName.bind fun inner => (yields_acceptWord _).skip fun _ => ?_
    extract_lets last
    have hlast (outer : OuterName) : Builds (held inner) (last outer) held :=
      .some (List.Sublist.refl _)
    exact .ite (yields_outerName.skip hlast) (.pureBind (hlast inner))
  exact .ite (yields_advance.skip hbehind) (hbehind ())

-- Each exported name of this module is looked up.
theorem within_exports (space : Space) (specifiers : List ExportSpecifier) :
    Within (specifiers.flatMap held)
      ((specifiers.filter (!·.inner.isString)).map fun s =>
        .leaf (.use (if s.isType then .both else space) s.inner.text s.inner.place)) := by
  refine ⟨?_, fun _ tree hmem => ?_⟩
  · induction specifiers with
    | nil => exact .slnil
    | cons s specifiers ih =>
      cases hstring : s.inner.isString with
      | true => simpa [held, hstring] using ih
      | false => simpa [held, hstring, Tree.leaf, Form.name?] using ih
  · obtain ⟨s, -, rfl⟩ := List.mem_map.mp hmem
    exact Tree.placed_use _ _ _

theorem yields_exportList (space : Space) : Yields (exportList space) := by
  refine (yields_expect _).skip fun _ => ?_
  refine (builds_iterate (fun state => state.1.reverse.flatMap held) ?_ (by simp)).bind
    fun (done, _) => (yields_expect _).skip fun _ => ?_
  · rintro ⟨done, first⟩
    refine (yields_sees _).skip fun _ => .ite (.some (by simp)) ?_
    extract_lets behind
    have hbehind (u : Unit) : Builds (done.reverse.flatMap held) (behind u) fun next =>
        (next.getD (done, first)).1.reverse.flatMap held := by
      refine (yields_sees _).skip fun _ => .ite (.some (by simp)) ?_
      exact yields_exportSpecifier.bind fun s => .some (by simp)
    exact .ite ((yields_expect _).skip hbehind) (hbehind ())
  · extract_lets specifiers behind
    have hbehind (outside : Bool) : Builds (specifiers.flatMap held) (behind outside) held := by
      refine yields_endStatement.skip fun _ => ?_
      extract_lets last
      have hlast (u : Unit) : Builds (specifiers.flatMap held) (last u) held := by
        refine Builds.bind (builds_iterate (fun _ => specifiers.flatMap held) (fun rest => ?_)
          (List.Sublist.refl _)) fun _ => ?_
        · cases rest with
          | nil => exact .some (by simp)
          | cons s rest => exact (yields_exportName _).skip fun _ => .some (by simp)
        · exact .ite .plain (.pure (within_node (within_exports space specifiers) rfl))
      exact .ite ((yields_blameIf _).skip hlast) (hlast ())
    refine (yields_acceptWord _).skip fun _ => .ite ?_ (.pureBind (hbehind false))
    refine yields_moduleName.skip fun _ => yields_attributes.skip fun _ => ?_
    exact .pureBind (hbehind true)

theorem yields_exportAll : Yields exportAll := by
  refine (yields_expect _).skip fun _ => (yields_acceptWord _).skip fun _ => ?_
  extract_lets last
  have hlast (u : Unit) : Builds [] (last u) held := by
    refine (yields_expectWord _).skip fun _ => yields_moduleName.skip fun _ => ?_
    exact yields_attributes.skip fun _ => yields_endStatement.skip fun _ => .plain
  refine .ite (yields_outerName.skip fun name => ?_) (hlast ())
  exact (yields_exportName _).skip hlast

variable {self : Grammar} (hself : self.Yields)

include hself

omit hself in
-- An exported name stands for a value and for a type.
theorem builds_exported (value : Tree) : Builds [value] (match value with
    | .node (.use .value name place) _ => Pure.pure (Tree.leaf (.use .both name place))
    | _ => Pure.pure value) held := by
  split
  · next name place parts =>
    refine .pure ⟨?_, fun _ => by simp [held, Tree.placed_use]⟩
    simp [held, Tree.leaf, Form.name?]
  · exact .some (List.Sublist.refl _)

theorem yields_exportDefault : Yields (exportDefault self) := by
  refine (yields_exportName _).skip fun _ => (yields_decorators hself).bind fun marks => ?_
  refine (yields_seesWord _).skip fun _ => (yields_nextOnLineIs _).skip fun _ => ?_
  extract_lets async last
  have hlast (u : Unit) : Builds marks (last u) held := by
    refine (hself _).bind fun value => yields_endStatement.skip fun _ => ?_
    exact (builds_exported value).of_sublist (List.sublist_append_right _ _)
  have hclass : Builds marks (do
      return Tree.of (marks ++ [← classDeclaration self false])) held :=
    (yields_classDeclaration hself false).bind fun tree => .node rfl (List.Sublist.refl _)
  refine (yields_seesWord _).skip fun _ => .ite ?_ ?_
  · refine Builds.step (builds_functionDeclaration hself false) fun (tree, _) => ?_
    exact .some (List.sublist_append_right _ _)
  refine (yields_seesWord _).skip fun _ => .ite hclass ?_
  refine yields_isTyped.skip fun _ => .ite ?_ (hlast ())
  refine (yields_seesWord _).skip fun _ => (yields_nextOnLineIs _).skip fun _ => .ite ?_ ?_
  · exact yields_advance.skip fun _ => hclass
  refine (yields_seesWord _).skip fun _ => (yields_nextOnLineIs _).skip fun _ => .ite ?_ (hlast ())
  exact (yields_interface hself).last

theorem yields_exportedDeclaration : Yields (exportedDeclaration self) := by
  refine (hself _).bind fun tree => ?_
  refine Builds.bind (builds_iterate (fun _ => [tree]) (fun names => ?_) (List.Sublist.refl _)) ?_
  · cases names with
    | nil => exact .some (by simp)
    | cons name names => exact (yields_exportName name).skip fun _ => .some (by simp)
  · exact fun _ => .some (List.Sublist.refl _)

theorem yields_exportDeclaration : Yields (exportDeclaration self) := by
  refine (yields_expectWord _).skip fun _ => yields_markModule.skip fun _ => ?_
  refine yields_token.skip fun t => ?_
  extract_lets assigned named aliased behind
  have hassigned (u : Unit) : Builds [] (assigned u) held := by
    refine yields_advance.skip fun _ => (hself _).bind fun value => ?_
    exact yields_endStatement.skip fun _ => builds_exported value
  have hnamed (u : Unit) : Builds [] (named u) held := by
    refine yields_advance.skip fun _ => (yields_expectWord _).skip fun _ => ?_
    exact yields_identifier.skip fun _ => yields_endStatement.skip fun _ => .plain
  have haliased (b : Bool) : Builds [] (aliased b) held := yields_importAlias _
  have hbehind (u : Unit) : Builds [] (behind u) held := by
    refine yields_isTyped.skip fun _ => (yields_seesWord _).skip fun _ => .ite ?_ ?_
    · refine yields_advance.skip fun _ => (yields_importModifier _).skip fun _ => ?_
      exact .ite ((yields_acceptWord _).skip haliased) (.pureBind (haliased false))
    · exact yields_startsExported.skip fun _ => .ite (yields_exportedDeclaration hself) .giveUp
  split
  · exact yields_exportAll
  · exact yields_exportList _
  · exact yields_advance.skip fun _ => yields_exportDefault hself
  · exact yields_isTyped.skip fun _ => .ite .giveUpBind (hassigned ())
  · exact yields_isTyped.skip fun _ => .ite .giveUpBind (hnamed ())
  · refine yields_isTyped.skip fun _ => (yields_seesWord _).skip fun _ => .ite ?_ (hbehind ())
    refine (yields_nextIs _).skip fun _ => .ite ?_ ((yields_nextIs _).skip fun _ => .ite ?_ ?_)
    · exact yields_advance.skip fun _ => yields_exportList _
    · exact yields_advance.skip fun _ => yields_exportAll
    · exact hbehind ()

end Exports

end Treeshake.Ecma.ModuleGrammar
