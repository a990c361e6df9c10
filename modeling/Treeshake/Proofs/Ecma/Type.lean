import Treeshake.Ecma.Type
import Treeshake.Proofs.Ecma.Signature

namespace Treeshake.Ecma.TypeGrammar

open Treeshake.Ecma.Parser Signature

variable {self : Grammar} (hself : self.Yields)

section Names

include hself

theorem yields_typeArguments : Yields (typeArguments self) := by
  refine yields_splitAngle.skip fun _ => ?_
  extract_lets jump
  have hjump (u : Unit) : Builds [] (jump u) held := by
    refine (yields_enclosed _ _ (hself _)).bind fun items => ?_
    exact (yields_blameIf _).skip fun _ => .some (by simp)
  exact .ite .giveUpBind (hjump ())

theorem yields_typeArguments? : Yields (typeArguments? self) := by
  refine yields_afterBreak.skip fun _ => ?_
  refine (yields_sees _).skip fun _ => (yields_sees _).skip fun _ => ?_
  exact .ite (yields_typeArguments hself) (.nothing rfl)

omit hself in
theorem yields_entityName (space : Space) : Yields (entityName space) := by
  refine yields_placedName.bind fun (name, place) => Yields.skip (yields_collect ?_) fun dots => ?_
  · refine (yields_accept _).skip fun _ => .ite ?_ (.nothing rfl)
    refine yields_token.skip fun t => ?_
    extract_lets last
    have hlast (u : Unit) : Builds [] (last u) held := .foundPlain
    split
    · exact yields_advance.skip hlast
    · exact yields_anyName.skip fun _ => hlast ()
  · refine .ite .plain ?_
    extract_lets last
    have hlast (u : Unit) : Builds (held (name, place)) (last u) held :=
      .pure (within_use _ name place)
    exact .ite .giveUpBind (hlast ())

theorem yields_reference : Yields (reference self) := by
  refine (yields_entityName _).bind fun name => (yields_typeArguments? hself).bind fun types => ?_
  exact .node rfl (by simp [held])

theorem yields_importType : Yields (importType self) := by
  refine (yields_expectWord _).skip fun _ => (yields_expect _).skip fun _ => ?_
  refine (hself _).bind fun argument => (yields_accept _).skip fun _ => ?_
  extract_lets jump
  have hjump (options : List Tree) : Builds (argument :: options) (jump options) held := by
    refine (yields_accept _).skip fun _ => (yields_expect _).skip fun _ => ?_
    refine Yields.skip (yields_collect ?_) fun _ => ?_
    · refine (yields_accept _).skip fun _ => .ite ?_ (.nothing rfl)
      exact yields_anyName.skip fun _ => .foundPlain
    · exact (yields_typeArguments? hself).bind fun types => .node rfl (by simp [held])
  refine .ite ((yields_sees _).skip fun _ => .ite (hjump []) ?_) (hjump [])
  exact (hself _).bind fun options => hjump [options]

theorem yields_query : Yields (query self) := by
  refine (yields_expectWord _).skip fun _ => (yields_seesWord _).skip fun _ => ?_
  refine .ite (yields_importType hself) ?_
  refine (yields_entityName _).bind fun name => (yields_typeArguments? hself).bind fun types => ?_
  exact .node rfl (by simp [held])

theorem yields_templateType : Yields (templateType self) :=
  (yields_template (hself _)).bind fun types => .node rfl (by simp [held])

end Names

section Members

omit hself in
theorem yields_tupleLabel : Yields tupleLabel := yields_ahead _

theorem yields_startsIndex : Yields startsIndex := yields_ahead _

theorem yields_endMember : Yields endMember := by
  refine (yields_or (yields_accept _) (yields_accept _)).skip fun _ => .ite ?_ (.nothing rfl)
  exact yields_canEnd.skip fun _ => .ite .giveUp (.nothing rfl)

theorem yields_modifies : Yields modifies := yields_nextOnLineIs _

theorem yields_signed {present : Parser Bool} (h : Yields present) : Yields (signed present) := by
  refine (yields_or (yields_accept _) (yields_accept _)).skip fun _ => .ite ?_ ?_
  · exact h.skip fun _ => .ite .giveUp (.nothing rfl)
  · exact h.skip fun _ => .nothing rfl

theorem yields_startsMapped : Yields startsMapped := yields_ahead _

include hself

theorem yields_tupleElement : Yields (tupleElement self) := by
  refine (yields_accept _).skip fun _ => yields_tupleLabel.skip fun _ => ?_
  extract_lets jump
  have hjump (u : Unit) : Builds [] (jump u) held :=
    (hself _).bind fun type => (yields_accept _).skip fun _ => .some (by simp [held])
  refine .ite (yields_anyName.skip fun _ => (yields_accept _).skip fun _ => ?_) (hjump ())
  exact (yields_expect _).skip hjump

theorem yields_callSignature (arrow : Bool) : Yields (callSignature self arrow) := by
  refine (yields_typeParameters hself).bind fun types => ?_
  refine (yields_parameters hself).bind fun params => ?_
  extract_lets jump
  have hjump (result : List Tree) : Builds (types ++ params ++ result) (jump result) held :=
    .node rfl (by simp)
  refine .ite ((yields_expect _).skip fun _ => ?_) ?_
  · exact (yields_resultType hself).bind fun result => hjump [result]
  · exact (yields_resultAnnotated hself).bind hjump

theorem yields_indexSignature : Yields (indexSignature self) := by
  refine (yields_enclosed _ _ ?_).bind fun params => ?_
  · refine yields_identifier.skip fun (name, _) => (yields_annotated hself).bind fun type => ?_
    exact .declare rfl (nameless_bind _ _ _) rfl (by simp [held])
  · exact (yields_annotated hself).bind fun type => .node rfl (by simp [held])

theorem yields_memberType : Yields (memberType self) := by
  have hsignature (arrow : Bool) : Yields (do
      let tree ← callSignature self arrow
      endMember
      return tree) :=
    (yields_callSignature hself arrow).bind fun tree =>
      yields_endMember.skip fun _ => .some (by simp)
  refine (yields_sees _).skip fun _ => (yields_sees _).skip fun _ => .ite (hsignature false) ?_
  refine (yields_seesWord _).skip fun _ => (yields_nextIs _).skip fun _ => .ite ?_ ?_
  · exact yields_advance.skip fun _ => hsignature false
  refine Yields.skip (yields_collect ?_) fun _ => ?_
  · refine (yields_seesWord _).skip fun _ => yields_modifies.skip fun _ => ?_
    exact .ite (yields_advance.skip fun _ => .foundPlain) (.nothing rfl)
  refine (yields_sees _).skip fun _ => yields_startsIndex.skip fun _ => .ite ?_ ?_
  · refine (yields_indexSignature hself).bind fun tree => ?_
    exact yields_endMember.skip fun _ => .some (by simp)
  refine (yields_seesAny _).skip fun _ => (yields_nextIs _).skip fun _ => ?_
  extract_lets named
  have hnamed (accessor : Bool) : Builds [] (named accessor) held := by
    refine (yields_key hself).bind fun k => ?_
    extract_lets last shaped
    have hlast (rest : List Tree) : Builds (k.parts ++ rest) (last rest) held :=
      yields_endMember.skip fun _ => .node rfl (by simp)
    have hshaped (optional : Bool) : Builds (held k) (shaped optional) held := by
      refine (yields_sees _).skip fun _ => (yields_sees _).skip fun _ => ?_
      refine .ite ((yields_callSignature hself false).bind fun rest => ?_)
        ((yields_annotated hself).bind fun rest => ?_)
      · exact (hlast [rest]).of_sublist (by simp [held])
      · exact (hlast rest).of_sublist (by simp [held])
    exact .ite (hshaped false) ((yields_accept _).skip hshaped)
  exact .ite (yields_advance.skip fun _ => hnamed true) (hnamed false)

theorem yields_members : Yields (members self) := by
  refine (yields_expect _).skip fun _ => Yields.bind (yields_collect ?_) fun items => ?_
  · refine (yields_sees _).skip fun _ => yields_seesEnd.skip fun _ => ?_
    refine .ite (.nothing rfl) ?_
    exact (yields_memberType hself).bind fun tree => .some (by simp [held])
  · exact (yields_expect _).skip fun _ => .some (by simp)

theorem yields_mapped : Yields (mapped self) := by
  refine (yields_expect _).skip fun _ => (yields_signed (yields_acceptWord _)).skip fun _ => ?_
  refine (yields_expect _).skip fun _ => yields_identifier.skip fun (name, _) => ?_
  refine (yields_expectWord _).skip fun _ => (hself _).bind fun keys => ?_
  refine (yields_acceptWord _).skip fun _ => ?_
  extract_lets jump
  have hjump (renamed : List Tree) : Builds (keys :: renamed) (jump renamed) held := by
    refine (yields_expect _).skip fun _ => (yields_signed (yields_accept _)).skip fun _ => ?_
    refine (yields_annotated hself).bind fun value => (yields_accept _).skip fun _ => ?_
    extract_lets last
    have hlast (u : Unit) : Builds (keys :: renamed ++ value) (last u) held :=
      (yields_expect _).skip fun _ => .declare rfl (nameless_bind _ _ _) rfl (by simp)
    exact .ite ((yields_accept _).skip fun _ => hlast ()) (hlast ())
  exact .ite ((hself _).bind fun renamed => hjump [renamed]) (hjump [])

end Members

section Types

include hself

theorem yields_atom : Yields (atom self) := by
  have hplain : Yields (do
      advance
      return Tree.plain) := yields_advance.skip fun _ => .plain
  refine yields_token.skip fun t => ?_
  split
  · exact hplain
  · exact hplain
  · exact hplain
  · exact yields_templateType hself
  · refine yields_advance.skip fun _ => yields_token.skip fun t => ?_
    split
    · exact hplain
    · exact hplain
    · exact .giveUp
  · refine yields_advance.skip fun _ => (yields_under _ (hself _)).bind fun type => ?_
    exact (yields_expect _).skip fun _ => .some (by simp)
  · refine (yields_under _ (yields_enclosed _ _ (yields_tupleElement hself))).bind fun items => ?_
    exact .node rfl (by simp [held])
  · refine yields_under _ (yields_startsMapped.skip fun _ => .ite (yields_mapped hself) ?_)
    exact (yields_members hself).bind fun items => .node rfl (by simp [held])
  · exact yields_query hself
  · exact yields_importType hself
  · exact (yields_nextIs _).skip fun _ => .ite hplain (yields_reference hself)
  · exact .giveUp

theorem yields_postfixType : Yields (postfixType self) := by
  refine (yields_atom hself).bind fun first => ?_
  refine (builds_iterate List.reverse (fun done => ?_) (by simp [held])).bind fun parts => ?_
  · refine yields_afterBreak.skip fun _ => .ite (.some (by simp)) ?_
    refine (yields_accept _).skip fun _ => .ite ?_ (.some (by simp))
    refine (yields_accept _).skip fun _ => .ite (.some (by simp)) ?_
    refine (yields_under _ (hself _)).bind fun index => ?_
    exact (yields_expect _).skip fun _ => .some (by simp [held])
  · exact .node rfl (by simp)

theorem yields_inferred : Yields (inferred self) := by
  refine (yields_expectWord _).skip fun _ => yields_identifier.skip fun (name, _) => ?_
  refine (yields_attempt ?_).bind fun bound => ?_
  · refine (yields_expectWord _).skip fun _ => (yields_under _ (hself _)).bind fun type => ?_
    refine yields_flags.skip fun _ => (yields_sees _).skip fun _ => ?_
    exact .ite .giveUpBind (.some (by simp))
  · refine .declare rfl (nameless_bind .block .type name) rfl ?_
    cases bound <;> simp [held]

theorem yields_operatorType : Yields (operatorType self) := by
  refine Yields.skip (yields_collect ?_) fun _ => ?_
  · refine (yields_seesAny _).skip fun _ => .ite ?_ (.nothing rfl)
    exact yields_advance.skip fun _ => .foundPlain
  · refine (yields_seesWord _).skip fun _ => ?_
    exact .ite (yields_inferred hself) (yields_postfixType hself)

omit hself in
theorem yields_startsFunction : Yields (startsFunction self) := by
  refine (yields_sees _).skip fun _ => .ite (.nothing rfl) ?_
  refine (yields_seesWord _).skip fun _ => .ite (.nothing rfl) ?_
  refine (yields_seesWord _).skip fun _ => (yields_nextIs _).skip fun _ => ?_
  refine .ite (.nothing rfl) ((yields_sees _).skip fun _ => ?_)
  exact .ite (.nothing rfl) (yields_ahead _)

theorem yields_functionType : Yields (functionType self) :=
  (yields_acceptWord _).skip fun _ => (yields_acceptWord _).skip fun _ =>
    yields_callSignature hself true

omit hself in
theorem yields_joined (mark : String) {item : Parser Tree} (h : Yields item) :
    Yields (joined mark item) := by
  refine (yields_accept _).skip fun _ => h.bind fun first => ?_
  refine Yields.bind (yields_collect ?_) fun rest => .node rfl (by simp [held])
  refine (yields_accept _).skip fun _ => .ite ?_ (.nothing rfl)
  exact h.bind fun tree => .some (by simp [held])

theorem yields_partType {level : Parser Tree} (h : Yields level) : Yields (partType self level) :=
  yields_startsFunction.skip fun _ => .ite (yields_functionType hself) h

theorem yields_unionType : Yields (unionType self) :=
  yields_joined _ (yields_joined _ (yields_partType hself (yields_operatorType hself)))

theorem yields_type : Yields (type self) := by
  refine yields_startsFunction.skip fun _ => .ite (yields_functionType hself) ?_
  refine (yields_unionType hself).bind fun subject => yields_flags.skip fun _ => ?_
  refine yields_afterBreak.skip fun _ => (yields_seesWord _).skip fun _ => ?_
  refine .ite (yields_advance.skip fun _ => ?_) (.some (by simp))
  refine (yields_under _ (hself _)).bind fun bound => (yields_expect _).skip fun _ => ?_
  refine (yields_under _ (hself _)).bind fun yes => (yields_expect _).skip fun _ => ?_
  exact (yields_under _ (hself _)).bind fun no => .node rfl (by simp [held])

omit hself in
theorem yields_canFollowArguments : Yields canFollowArguments := by
  refine yields_token.skip fun t => ?_
  split
  · exact .nothing rfl
  · refine .ite (.nothing rfl) (.ite (.nothing rfl) ?_)
    exact yields_afterBreak.skip fun _ => .ite (.nothing rfl) (.nothing rfl)
  · exact .nothing rfl
  · exact yields_afterBreak.skip fun _ => .ite (.nothing rfl) (.nothing rfl)
  · exact yields_afterBreak

theorem yields_expressionArguments? : Yields (expressionArguments? self) := by
  refine yields_attempt (yields_splitAngle.skip fun _ => ?_)
  extract_lets jump
  have hjump (u : Unit) : Builds [] (jump u) held := by
    refine (yields_expect _).skip fun _ => (yields_commaList _ (hself _)).bind fun (types, _) => ?_
    refine yields_wideMark.skip fun _ => ?_
    extract_lets last closed
    have hclosed (u : Unit) : Builds types (closed u) held := by
      refine (yields_expect _).skip fun _ => (yields_blameIf _).skip fun _ => ?_
      exact yields_canFollowArguments.skip fun _ => .ite .giveUpBind (.some (by simp [held]))
    exact .ite .giveUpBind ((hclosed ()).of_sublist (by simp [held]))
  exact .ite .giveUpBind (hjump ())

end Types

end Treeshake.Ecma.TypeGrammar
