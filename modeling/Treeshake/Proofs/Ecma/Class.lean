import Treeshake.Ecma.Class
import Treeshake.Proofs.Ecma.Type

namespace Treeshake.Ecma.ClassGrammar

open Treeshake.Ecma.Parser Signature TypeGrammar

instance : Held MemberKind := ⟨fun _ => []⟩
instance : Held Modifiers := ⟨fun _ => []⟩

variable {self : Grammar} (hself : self.Yields)

section Objects

theorem yields_checkParameters (kind : MemberKind) (params : List Tree) :
    Yields (checkParameters kind params) := by
  unfold checkParameters
  split
  · exact .nothing rfl
  · exact yields_blameIf _
  · split
    · exact yields_blame
    · exact .nothing rfl
    · exact yields_blame

theorem yields_precedesKey (star sameLine : Bool) : Yields (precedesKey star sameLine) :=
  yields_ahead _

-- A name by itself, or with a default that only a target can have.
theorem within_shorthand (name : String) (span : Text.Span) :
    Within [.leaf (.use .value name span)] [.leaf (.shorthand name span)] :=
  ⟨List.Sublist.refl _, fun _ => by simp [Tree.placed_shorthand]⟩

theorem within_cover (name : String) (span : Text.Span) (value : Tree) :
    Within [.leaf (.use .value name span), value] [.node (.cover name span) [value]] := by
  refine ⟨?_, fun hplaced => ?_⟩
  · simp [Tree.leaf, Form.name?]
  · simpa [Tree.placed_cover] using hplaced value (by simp)

theorem sublist_held_key {k : Key} {name : String} {span : Text.Span}
    (h : k.identifier = some (name, span)) :
    [Tree.leaf (.use .value name span)].Sublist (held k) := by
  simp [held, h]

include hself

theorem yields_method (kind : MemberKind) (async generator : Bool) :
    Yields (method self kind async generator) := by
  refine Builds.step (builds_function hself [] async generator) fun (tree, params, _) => ?_
  exact (yields_checkParameters kind params).skip fun _ => .some (by simp [held])

theorem yields_field : Yields (field self) := by
  refine (yields_accept _).skip fun _ => .ite ?_ ?_
  · exact (yields_under _ (hself _)).bind fun value => .node rfl (by simp [held])
  refine (yields_seesWord _).skip fun _ => (yields_precedesKey _ _).skip fun _ => ?_
  extract_lets behindAsync
  have hbehindAsync (async : Bool) : Builds [] (behindAsync async) held := by
    refine (yields_seesWord _).skip fun _ => (yields_precedesKey _ _).skip fun _ => ?_
    refine (yields_seesWord _).skip fun _ => (yields_precedesKey _ _).skip fun _ => ?_
    extract_lets behindKind
    have hbehindKind (kind : MemberKind) : Builds [] (behindKind kind) held := by
      unfold behindKind
      extract_lets behindStar
      have hbehindStar (generator : Bool) : Builds [] (behindStar generator) held := by
        refine (yields_key hself).bind fun k => ?_
        extract_lets called named
        have hcalled (u : Unit) : Builds (held k) (called u) held :=
          (yields_method hself _ _ _).bind fun tree => .node rfl (by simp [held])
        have hnamed (u : Unit) : Builds (held k) (named u) held := by
          refine (yields_sees _).skip fun _ => (yields_sees _).skip fun _ => .ite ?_ ?_
          · refine (yields_sees _).skip fun _ => (yields_sees _).skip fun _ => ?_
            exact .ite .giveUpBind (hcalled ())
          refine (yields_accept _).skip fun _ => .ite ?_ ?_
          · exact (yields_under _ (hself _)).bind fun value => .node rfl (by simp [held])
          split
          · next name place hname =>
            refine (yields_checkIdentifier _).skip fun _ => (yields_accept _).skip fun _ => ?_
            refine .ite ?_ ?_
            · refine (yields_under _ (hself _)).bind fun value => ?_
              have hsub := (sublist_held_key hname).append_right [value]
              exact .of_sublist (.pure (within_cover name place value)) hsub
            · have hsub := sublist_held_key hname
              exact .of_sublist (.pure (within_shorthand name place)) hsub
          · exact .giveUp
        exact .ite .giveUpBind (hnamed ())
      exact .ite ((yields_accept _).skip hbehindStar) (.pureBind (hbehindStar false))
    refine .ite (yields_advance.skip fun _ => .pureBind (hbehindKind .getter)) (.ite ?_ ?_)
    · exact yields_advance.skip fun _ => .pureBind (hbehindKind .setter)
    · exact .pureBind (hbehindKind .value)
  refine .ite (yields_advance.skip fun _ => .pureBind (hbehindAsync true)) ?_
  exact .pureBind (hbehindAsync false)

theorem yields_object : Yields (object self) := by
  refine (yields_expect _).skip fun _ => ?_
  refine (yields_under _ (yields_commaList _ (yields_field hself))).bind fun (fields, comma) => ?_
  exact (yields_expect _).skip fun _ => .node rfl (by simp [held])

end Objects

section Members

theorem yields_modifiers : Yields modifiers := by
  refine builds_iterate (fun _ => []) (fun m => ?_) (by simp)
  refine (yields_seesWord _).skip fun _ => (yields_precedesKey _ _).skip fun _ => .ite ?_ ?_
  · exact yields_advance.skip fun _ => .nothing rfl
  refine (yields_seesWord _).skip fun _ => (yields_precedesKey _ _).skip fun _ => .ite ?_ ?_
  · exact yields_advance.skip fun _ => .nothing rfl
  refine (yields_seesWord _).skip fun _ => (yields_precedesKey _ _).skip fun _ => .ite ?_ ?_
  · exact yields_advance.skip fun _ => .nothing rfl
  refine yields_isTyped.skip fun _ => (yields_seesAny _).skip fun _ => ?_
  refine (yields_precedesKey _ _).skip fun _ => .ite ?_ (.nothing rfl)
  refine (yields_seesWord _).skip fun _ => (yields_seesWord _).skip fun _ => ?_
  exact yields_advance.skip fun _ => .nothing rfl

theorem yields_checkName (k : Key) (m : Modifiers) (isMethod special : Bool) :
    Yields (checkName k m isMethod special) := by
  unfold checkName
  split
  · exact .ite (yields_blameIf _) (.ite (yields_blameIf _) (yields_blameIf _))
  · exact .nothing rfl

include hself

theorem yields_staticBlock : Yields (staticBlock self) :=
  yields_advance.skip fun _ => yields_under _ (yields_block hself _)

theorem yields_member : Yields (member self) := by
  refine (yields_accept _).skip fun _ => .ite .foundPlain ?_
  refine (yields_sees _).skip fun _ => yields_seesEnd.skip fun _ => ?_
  refine .ite (.nothing rfl) ((yields_decorators hself).bind fun marks => ?_)
  refine (yields_seesWord _).skip fun _ => (yields_nextIs _).skip fun _ => .ite ?_ ?_
  · exact (yields_staticBlock hself).bind fun code => .found rfl (by simp [held])
  refine yields_modifiers.skip fun m => yields_isTyped.skip fun _ => ?_
  refine (yields_sees _).skip fun _ => yields_startsIndex.skip fun _ => .ite ?_ ?_
  · refine (yields_indexSignature hself).bind fun tree => yields_endMember.skip fun _ => ?_
    exact .some (by simp [held])
  refine (yields_seesWord _).skip fun _ => (yields_precedesKey _ _).skip fun _ => ?_
  refine (yields_seesWord _).skip fun _ => (yields_precedesKey _ _).skip fun _ => ?_
  extract_lets behindKind
  have hbehindKind (kind : MemberKind) : Builds marks (behindKind kind) held := by
    unfold behindKind
    extract_lets behindStar
    have hbehindStar (generator : Bool) : Builds marks (behindStar generator) held := by
      refine (yields_key hself).bind fun k => yields_isTyped.skip fun _ => ?_
      extract_lets valued field named
      have hvalued (definite : Bool) : Builds (marks ++ held k) (valued definite) held := by
        refine (yields_annotated hself).bind fun type => ?_
        refine (yields_under _ (yields_initializer hself)).bind fun value => ?_
        exact yields_endStatement.skip fun _ => .found rfl (by simp [held])
      have hfield (u : Unit) : Builds (marks ++ held k) (field u) held := by
        refine (yields_checkName _ _ _ _).skip fun _ => yields_isTyped.skip fun _ => ?_
        refine yields_afterBreak.skip fun _ => .ite ((yields_accept _).skip hvalued) ?_
        exact .pureBind (hvalued false)
      have hnamed (optional : Bool) : Builds (marks ++ held k) (named optional) held := by
        refine (yields_sees _).skip fun _ => (yields_sees _).skip fun _ => .ite ?_ ?_
        · refine (yields_checkName _ _ _ _).skip fun _ => ?_
          refine (yields_method hself _ _ _).bind fun tree => yields_isTyped.skip fun _ => ?_
          refine (yields_sees _).skip fun _ => ?_
          extract_lets last
          have hlast (u : Unit) : Builds (marks ++ held k ++ [tree]) (last u) held :=
            .found rfl (by simp [held])
          exact .ite (yields_advance.skip hlast) (hlast ())
        · exact .ite .giveUpBind (hfield ())
      exact .ite ((yields_accept _).skip hnamed) (.pureBind (hnamed false))
    exact .ite ((yields_accept _).skip hbehindStar) (.pureBind (hbehindStar false))
  refine .ite (yields_advance.skip fun _ => .pureBind (hbehindKind .getter)) (.ite ?_ ?_)
  · exact yields_advance.skip fun _ => .pureBind (hbehindKind .setter)
  · exact .pureBind (hbehindKind .value)

theorem yields_heritage : Yields (heritage self) := by
  refine (yields_acceptWord _).skip fun _ => ?_
  extract_lets behind
  have hbehind (base : List Tree) : Builds base (behind base) held := by
    refine (yields_and yields_isTyped (yields_acceptWord _)).skip fun _ => ?_
    extract_lets last
    have hlast (interfaces : List Tree) : Builds (base ++ interfaces) (last interfaces) held :=
      .some (List.Sublist.refl _)
    refine .ite ((yields_reference hself).bind fun first => ?_) ?_
    · refine Yields.bind (yields_collect ?_) fun rest => ?_
      · refine (yields_accept _).skip fun _ => .ite ?_ (.nothing rfl)
        exact (yields_reference hself).bind fun tree => .some (by simp [held])
      · exact .pureBind ((hlast (first :: rest)).of_sublist (by simp [held]))
    · exact .pureBind ((hlast []).of_sublist (by simp))
  refine .ite ((hself _).bind fun value => yields_isTyped.skip fun _ => ?_) (.pureBind (hbehind []))
  extract_lets applied
  have happlied (types : List Tree) : Builds (value :: types) (applied types) held :=
    .pureBind (hbehind (value :: types))
  exact .ite ((yields_typeArguments? hself).bind happlied) (.pureBind (happlied []))

end Members

section Functions

include hself

theorem builds_classTail (isExpression : Bool) :
    Builds [] (classTail self isExpression) fun (_, tree) => [tree] := by
  refine (yields_expectWord _).skip fun _ => yields_isIdentifier.skip fun _ => ?_
  refine yields_isTyped.skip fun _ => (yields_seesWord _).skip fun _ => ?_
  extract_lets named
  have hnamed (name : Option String) : Builds [] (named name) fun (_, tree) => [tree] := by
    unfold named
    extract_lets own
    have hown : Nameless own := by
      cases isExpression with
      | false => exact nameless_nil
      | true => exact nameless_binds _ _ name.toList
    refine Builds.of_nameless ?_ hown
    refine (yields_typeParameters hself).bind fun types => ?_
    refine (yields_heritage hself).bind fun bases => (yields_expect _).skip fun _ => ?_
    refine (yields_under _ (yields_collect (yields_member hself))).bind fun members => ?_
    refine (yields_expect _).skip fun _ => .pure (within_node ?_ rfl)
    exact within_of_sublist (List.Sublist.refl _)
  refine .ite (yields_identifier.skip fun (name, _) => .pureBind (hnamed name)) ?_
  exact .pureBind (hnamed none)

theorem yields_classExpression : Yields (classExpression self) :=
  Builds.step (builds_classTail hself true) fun _ => .some (by simp [held])

theorem yields_classDeclaration (nameRequired : Bool) :
    Yields (classDeclaration self nameRequired) := by
  refine Builds.step (builds_classTail hself false) fun (name, tree) => ?_
  cases name with
  | some name => exact .declare rfl (nameless_bind _ _ _) rfl (List.Sublist.refl _)
  | none => exact .ite .giveUp (.some (by simp [held]))

theorem yields_functionExpression (async : Bool) : Yields (functionExpression self async) := by
  refine (yields_expectWord _).skip fun _ => (yields_accept _).skip fun generator => ?_
  refine yields_isIdentifier.skip fun _ => ?_
  extract_lets behind
  have hbehind (own : List Tree) : Builds own (behind own) held := by
    refine Builds.bind (builds_function hself own async generator) fun (tree, _, _) => ?_
    exact (yields_blameIf _).skip fun _ => .some (by simp [held])
  refine .ite (Yields.bind (yields_under _ ?_) hbehind) (.pureBind (hbehind []))
  exact yields_identifier.skip fun (name, _) => .nameless (nameless_bind _ _ _)

theorem builds_functionDeclaration (nameRequired : Bool) :
    Builds [] (functionDeclaration self nameRequired) fun (tree, _) => [tree] := by
  refine (yields_acceptWord _).skip fun async => (yields_expectWord _).skip fun _ => ?_
  refine (yields_accept _).skip fun generator => yields_isIdentifier.skip fun _ => ?_
  extract_lets behind
  have hbehind (own : List Tree) : Builds own (behind own) fun (tree, _) => [tree] := by
    refine Builds.step (builds_function hself [] async generator) fun (tree, _, hasBody) => ?_
    dsimp -zeta only
    extract_lets last
    have hlast (u : Unit) : Builds (own ++ [tree]) (last u) fun (tree, _) => [tree] :=
      .pure (within_node (within_of_sublist (List.Sublist.refl _)) rfl)
    exact .ite (yields_endStatement.skip hlast) (hlast ())
  refine .ite (yields_identifier.skip fun (name, _) => .pureBind ?_) ?_
  · exact (hbehind _).of_nameless (nameless_bind _ _ _)
  · exact .ite .giveUpBind (.pureBind (hbehind []))

end Functions

end Treeshake.Ecma.ClassGrammar
