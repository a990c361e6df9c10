import Treeshake.Ecma.Signature
import Treeshake.Proofs.Ecma.Parsing

namespace Treeshake.Ecma.Signature

open Treeshake.Ecma.Parser

-- A name that could be an identifier counts, because a field may stand for it.
instance : Held Key := ⟨fun k => k.parts ++ held k.identifier⟩

variable {self : Grammar} (hself : self.Yields)

section Keys

include hself in
theorem yields_computed : Yields (computed self) := by
  refine (yields_expect _).skip fun _ => (yields_under _ (hself _)).bind fun key => ?_
  exact (yields_expect _).skip fun _ => .some (by simp)

include hself in
theorem yields_key : Yields (key self) := by
  refine yields_token.skip fun t => ?_
  split
  · refine yields_placedName.bind fun (text, place) => .some ?_
    cases isReserved text <;> simp [held]
  · exact yields_advance.skip fun _ => .nothing rfl
  · exact yields_advance.skip fun _ => .nothing rfl
  · exact yields_advance.skip fun _ => .nothing rfl
  · exact yields_advance.skip fun _ => .nothing rfl
  · exact (yields_computed hself).bind fun tree => .some (by simp [held])

include hself in
theorem yields_decorators : Yields (decorators self) := by
  refine yields_collect ((yields_accept _).skip fun _ => .ite ?_ (.nothing rfl))
  exact (yields_under _ (hself _)).bind fun tree => .some (by simp [held])

end Keys

section Patterns

include hself

theorem yields_annotated : Yields <| annotation self := by
  refine (yields_and yields_isTyped (yields_accept _)).skip fun _ => .ite ?_ (.nothing rfl)
  exact (hself _).bind fun type => .some (by simp [held])

theorem yields_initializer : Yields (initializer self) := by
  refine (yields_accept _).skip fun _ => .ite ?_ (.nothing rfl)
  exact (yields_under _ (hself _)).bind fun value => .some (by simp [held])

theorem yields_patternElement (reach : Reach) : Yields (patternElement self reach) := by
  refine (hself _).bind fun target => (yields_initializer hself).bind fun value => ?_
  exact .node rfl (by simp [held])

omit hself in
theorem yields_identifierPattern (reach : Reach) : Yields (identifierPattern reach) :=
  yields_identifier.skip fun _ => .node rfl (by simp)

theorem yields_restElement (reach : Reach) (close : String) :
    Yields (restElement self reach close) := by
  refine (yields_expect _).skip fun _ => (hself _).bind fun target => ?_
  refine (yields_accept _).skip fun _ => ?_
  extract_lets last jump
  have hlast (u : Unit) : Builds [target] (last u) held := .some (by simp [held])
  have hjump (u : Unit) : Builds [target] (jump u) held := by
    refine (yields_sees _).skip fun _ => .ite ?_ (hlast ())
    refine yields_blame.skip fun _ => yields_advance.skip fun _ => ?_
    exact (yields_sees _).skip fun _ => .ite .giveUpBind (hlast ())
  exact .ite (yields_blame.skip fun _ => (hself _).skip fun _ => hjump ()) (hjump ())

theorem yields_arrayPattern (reach : Reach) : Yields (arrayPattern self reach) := by
  refine (yields_expect _).skip fun _ => (yields_commaList _ ?_).bind fun items => ?_
  · refine (yields_sees _).skip fun _ => .ite (.node rfl (by simp)) ?_
    refine (yields_sees _).skip fun _ => .ite ?_ ?_
    · exact yields_restElement hself reach _
    · exact yields_patternElement hself reach
  · exact (yields_expect _).skip fun _ => .node rfl (by simp [held])

theorem yields_patternField (reach : Reach) : Yields (patternField self reach) := by
  refine (yields_sees _).skip fun _ => .ite ?_ ?_
  · refine (yields_restElement hself reach _).bind fun target => ?_
    extract_lets jump
    have hjump (u : Unit) : Builds [target] (jump u) held := .some (by simp [held])
    split
    · exact hjump ()
    · exact yields_blame.skip hjump
  refine (yields_key hself).bind fun k => ?_
  extract_lets jump
  have hjump (u : Unit) : Builds (held k) (jump u) held := by
    refine (yields_accept _).skip fun _ => .ite ?_ ?_
    · refine (yields_patternElement hself reach).bind fun value => .node rfl ?_
      simp [held]
    split
    · refine (yields_checkIdentifier _).skip fun _ => ?_
      refine (yields_initializer hself).bind fun value => ?_
      exact .declare rfl (nameless_bind _ _ _) rfl (by simp [held])
    · exact .giveUp
  exact .ite .giveUpBind (hjump ())

theorem yields_objectPattern (reach : Reach) : Yields (objectPattern self reach) := by
  refine (yields_expect _).skip fun _ => ?_
  refine (yields_commaList _ (yields_patternField hself reach)).bind fun fields => ?_
  exact (yields_expect _).skip fun _ => .node rfl (by simp [held])

theorem yields_pattern (reach : Reach) : Yields (pattern self reach) := by
  refine (yields_sees _).skip fun _ => .ite (yields_arrayPattern hself reach) ?_
  refine (yields_sees _).skip fun _ => .ite (yields_objectPattern hself reach) ?_
  exact yields_identifierPattern reach

end Patterns

section Parameters

include hself

theorem yields_typeParameter : Yields (typeParameter self) := by
  refine Yields.skip (yields_collect ?_) fun _ => yields_identifier.skip fun (name, _) => ?_
  · refine (yields_seesAny _).skip fun _ => ?_
    extract_lets none
    have hnone (u : Unit) : Builds [] (none u) held := .nothing rfl
    refine .ite ((yields_nextIs _).skip fun _ => .ite ?_ (hnone ())) (hnone ())
    exact yields_advance.skip fun _ => .foundPlain
  refine (yields_acceptWord _).skip fun _ => ?_
  extract_lets jump
  have hjump (bound : List Tree) : Builds bound (jump bound) held := by
    refine (yields_accept _).skip fun _ => ?_
    extract_lets last
    have hlast (default : List Tree) : Builds (bound ++ default) (last default) held :=
      .declare rfl (nameless_bind _ _ _) rfl (List.Sublist.refl _)
    refine .ite ((hself _).bind fun type => hlast [type]) ?_
    exact (hlast []).of_sublist (by simp)
  exact .ite ((hself _).bind fun type => hjump [type]) (hjump [])

theorem yields_typeParameters : Yields (typeParameters self) := by
  refine yields_isTyped.skip fun _ => (yields_sees _).skip fun _ => .ite ?_ (.nothing rfl)
  refine (yields_enclosed _ _ (yields_typeParameter hself)).bind fun items => ?_
  exact (yields_blameIf _).skip fun _ => .some (by simp [held])

omit hself in
theorem yields_skipParameterModifiers : Yields skipParameterModifiers := by
  refine Yields.skip (yields_collect ?_) fun _ => .nothing rfl
  refine (yields_seesAny _).skip fun _ => ?_
  extract_lets none
  have hnone (u : Unit) : Builds [] (none u) held := .nothing rfl
  refine .ite ((yields_nextIs _).skip fun _ => .ite ?_ (hnone ())) (hnone ())
  exact yields_advance.skip fun _ => .foundPlain

theorem yields_parameter : Yields (parameter self) := by
  refine (yields_decorators hself).bind fun marks => yields_isTyped.skip fun _ => ?_
  extract_lets jump
  have hjump (u : Unit) : Builds marks (jump u) held := by
    refine (yields_sees _).skip fun _ => .ite ?_ ?_
    · refine (yields_expect _).skip fun _ => (hself _).bind fun target => ?_
      refine yields_isTyped.skip fun _ => ?_
      extract_lets typed
      have htyped (b : Bool) : Builds (marks ++ [target]) (typed b) held := by
        refine (yields_annotated hself).bind fun type => (yields_accept _).skip fun _ => ?_
        extract_lets last closed
        have hlast (u : Unit) : Builds (marks ++ [target] ++ type) (last u) held :=
          .node rfl (by simp)
        have hclosed (u : Unit) : Builds (marks ++ [target] ++ type) (closed u) held :=
          (yields_sees _).skip fun _ => .ite (yields_blame.skip fun _ => .giveUpBind) (hlast ())
        exact .ite (yields_blame.skip fun _ => (hself _).skip fun _ => hclosed ()) (hclosed ())
      exact .ite ((yields_accept _).skip htyped) (htyped false)
    refine yields_isTyped.skip fun _ => (yields_seesWord _).skip fun _ => .ite ?_ ?_
    · refine yields_advance.skip fun _ => (yields_annotated hself).bind fun type => ?_
      exact .node rfl (by simp [held])
    · refine (hself _).bind fun target => yields_isTyped.skip fun _ => ?_
      extract_lets typed
      have htyped (b : Bool) : Builds (marks ++ [target]) (typed b) held := by
        refine (yields_annotated hself).bind fun type => ?_
        exact (yields_initializer hself).bind fun value => .node rfl (by simp [held])
      exact .ite ((yields_accept _).skip htyped) (htyped false)
  exact .ite (yields_skipParameterModifiers.skip hjump) (hjump ())

theorem yields_parameters : Yields (parameters self) :=
  yields_enclosed _ _ (yields_parameter hself)

end Parameters

section Results

theorem yields_isSubject : Yields isSubject :=
  yields_isIdentifier.skip fun _ => (yields_seesWord _).skip fun _ => .nothing rfl

theorem yields_subject : Yields subject := by
  refine yields_placedName.bind fun (name, place) => .some ?_
  cases name == "this" <;> simp [held]

include hself

theorem yields_predicate? : Yields (predicate? self) := by
  refine (yields_seesWord _).skip fun _ => (yields_nextOnLineIs _).skip fun _ => ?_
  refine (yields_nextIs _).skip fun _ => .ite ?_ ?_
  · refine yields_advance.skip fun _ => yields_subject.bind fun name => ?_
    refine (yields_acceptWord _).skip fun _ => ?_
    extract_lets jump
    have hjump (type : List Tree) : Builds (name ++ type) (jump type) held := .found rfl (by simp)
    refine .ite ((hself _).bind fun type => hjump [type]) ?_
    exact (hjump []).of_sublist (by simp [held])
  refine yields_isSubject.skip fun _ => (yields_nextOnLineIs _).skip fun _ => .ite ?_ ?_
  · refine yields_subject.bind fun name => yields_advance.skip fun _ => ?_
    exact (hself _).bind fun type => .found rfl (by simp [held])
  · exact .nothing rfl

theorem yields_resultType : Yields (resultType self) := by
  refine (yields_predicate? hself).bind fun found => ?_
  split
  · exact .some (by simp [held])
  · exact (hself _).last

theorem yields_resultAnnotated : Yields <| resultAnnotation self := by
  refine (yields_and yields_isTyped (yields_accept _)).skip fun _ => .ite ?_ (.nothing rfl)
  exact (yields_resultType hself).bind fun type => .some (by simp [held])

end Results

section Bodies

theorem yields_template {item : Parser Tree} (h : Yields item) : Yields (template item) := by
  refine (builds_iterate (fun state => state.1.reverse) ?_ (by simp)).bind fun found => ?_
  · rintro ⟨done, valid, finished⟩
    refine .ite (.some (by simp)) (yields_token.skip fun t => ?_)
    split
    · exact yields_advance.skip fun _ => .some (by simp)
    · refine yields_advance.skip fun _ => h.bind fun part => (yields_sees _).skip fun _ => ?_
      extract_lets jump
      have hjump (u : Unit) : Builds (done.reverse ++ [part]) (jump u) fun next =>
          (next.getD (done, valid, finished)).1.reverse :=
        (yields_advanceWith Lexer.scans_templateRest).skip fun _ => .some (by simp)
      exact .ite .giveUpBind (hjump ())
    · exact .giveUp
  · exact .some (by simp [held])

include hself

theorem yields_statements : Yields (statements self) := by
  refine yields_collect ((yields_sees _).skip fun _ => yields_seesEnd.skip fun _ => .ite ?_ ?_)
  · exact .nothing rfl
  · exact (hself _).bind fun tree => .some (by simp [held])

theorem yields_block (reach : Reach) : Yields (block self reach) := by
  refine (yields_expect _).skip fun _ => (yields_statements hself).bind fun body => ?_
  exact (yields_expect _).skip fun _ => .node rfl (by simp [held])

theorem yields_body (async generator : Bool) : Yields (body self async generator) :=
  yields_under _ (yields_block hself .body)

-- Parameters are returned once more by themselves.
theorem builds_function (own : List Tree) (async generator : Bool) :
    Builds own (function self own async generator) fun (tree, _, _) => [tree] := by
  refine (yields_typeParameters hself).bind fun types => ?_
  refine (yields_under _ (yields_parameters hself)).bind fun params => ?_
  refine (yields_resultAnnotated hself).bind fun result => ?_
  have hhead (parts : List Tree) : Within (own ++ types ++ params ++ result ++ parts)
      [.node (.scope .block) (own ++ types ++ params ++ result ++ parts)] :=
    within_node (within_of_sublist (List.Sublist.refl _)) rfl
  extract_lets head bare
  have hbare (u : Unit) :
      Builds (own ++ types ++ params ++ result) (bare u) fun (tree, _, _) => [tree] :=
    .pure (by simpa [head] using hhead [])
  refine yields_isTyped.skip fun _ => (yields_sees _).skip fun _ => .ite ?_ ?_
  · exact yields_canEnd.skip fun _ => .ite .giveUpBind (hbare ())
  · exact (yields_body hself async generator).bind fun code => .pure (hhead [code])

end Bodies

end Treeshake.Ecma.Signature
