import Treeshake.Ecma.Element
import Treeshake.Proofs.Ecma.Type

namespace Treeshake.Ecma.ElementGrammar

open Treeshake.Ecma.Parser Signature TypeGrammar

instance : Held Tag := ⟨Tag.reference⟩

-- Only a name without hyphens is one that stands in the source as it is.
instance (priority := high) : Held (String × Text.Span × Bool) :=
  ⟨fun (name, span, hyphens) => if hyphens then [] else [.leaf (.use .value name span)]⟩

section Tags

theorem yields_leave (inChild : Bool) : Yields (leave inChild) := by
  cases inChild with
  | false => exact yields_advanceWith Lexer.scans_next
  | true => exact yields_advanceWith Lexer.scans_child

theorem yields_hyphenName : Yields hyphenName := by
  refine builds_token fun s => ?_
  split
  · next name htoken =>
    intro source low found s' hrun hs
    cases hrun
    generalize s.after.rest.take _ = tail
    cases tail with
    | nil =>
      simp only [held, String.ofList_nil, String.append_empty]
      exact hs.scanName htoken (Lexer.reaches_hyphenated _) rfl rfl
    | cons c tail => exact hs.scan Lexer.scans_next (Lexer.reaches_hyphenated _) rfl rfl
  · exact Builds.giveUp s

theorem yields_tag : Yields tag := by
  refine yields_hyphenName.bind fun (name, place, hyphens) => ?_
  refine (yields_accept _).skip fun _ => .ite ?_ ((yields_sees _).skip fun _ => .ite ?_ ?_)
  · exact yields_hyphenName.skip fun _ => .nothing rfl
  · refine (yields_blameIf _).skip fun _ => ?_
    refine Builds.bind (builds_iterate (fun _ => held (name, place, hyphens)) ?_ (by simp)) ?_
    · refine fun done => (yields_accept _).skip fun _ => .ite ?_ (.some (by simp))
      exact yields_hyphenName.skip fun _ => .some (by simp)
    · refine fun text => .some ?_
      cases hyphens <;> cases name == "this" <;> simp [held]
  · cases hyphens <;> cases isReference name <;> exact .some (by simp [held])

end Tags

variable {self : Grammar} (hself : self.Yields)

section Attributes

include hself

theorem yields_braced : Yields (braced self) := by
  refine yields_under _ ((hself _).bind fun first => (yields_sees _).skip fun _ => .ite ?_ ?_)
  · refine yields_blame.skip fun _ => Yields.bind (yields_collect ?_) fun rest => ?_
    · refine (yields_accept _).skip fun _ => .ite ?_ (.nothing rfl)
      exact (hself _).bind fun tree => .some (by simp [held])
    · exact .node rfl (by simp [held])
  · exact .some (by simp [held])

theorem yields_setting : Yields (setting self) := by
  refine (yields_accept _).skip fun _ => .ite ?_ ?_
  · refine (yields_expect _).skip fun _ => (yields_under _ (hself _)).bind fun value => ?_
    exact (yields_expect _).skip fun _ => .some (by simp [held])
  extract_lets named
  have hnamed (u : Unit) : Builds [] (named u) held := by
    refine (yields_sees _).skip fun _ => .ite .plain ?_
    refine (yields_advanceWith Lexer.scans_attributeValue).skip fun _ => ?_
    refine yields_token.skip fun t => ?_
    split
    · exact yields_advance.skip fun _ => .plain
    · refine yields_advance.skip fun _ => (yields_sees _).skip fun _ => ?_
      refine (yields_blameIf _).skip fun _ => (yields_braced hself).bind fun value => ?_
      exact (yields_expect _).skip fun _ => .some (by simp)
    · exact hself _
    · exact .giveUp
  refine yields_hyphenName.skip fun _ => (yields_accept _).skip fun _ => .ite ?_ (hnamed ())
  exact yields_hyphenName.skip fun _ => hnamed ()

theorem yields_settings : Yields (settings self) := by
  refine yields_collect ((yields_sees _).skip fun _ => (yields_sees _).skip fun _ => ?_)
  refine yields_seesEnd.skip fun _ => .ite (.nothing rfl) ?_
  exact (yields_setting hself).bind fun tree => .some (by simp [held])

end Attributes

section Children

include hself

theorem yields_container : Yields (container self) := by
  refine yields_advance.skip fun _ => (yields_sees _).skip fun _ => .ite ?_ ?_
  · exact (yields_leave _).skip fun _ => .plain
  refine (yields_accept _).skip fun _ => (yields_braced hself).bind fun value => ?_
  refine (yields_sees _).skip fun _ => ?_
  extract_lets last
  have hlast (u : Unit) : Builds [value] (last u) held :=
    (yields_leave _).skip fun _ => .some (by simp [held])
  exact .ite .giveUpBind (hlast ())

theorem yields_children : Yields (children self) := by
  refine (builds_iterate (fun state => state.1.reverse) ?_ (by simp)).bind fun found => ?_
  · rintro ⟨done, finished⟩
    refine .ite (.some (by simp)) (yields_token.skip fun t => ?_)
    split
    · exact (yields_leave _).skip fun _ => .some (by simp)
    · exact (yields_container hself).bind fun tree => .some (by simp [held])
    · refine (yields_nextIs _).skip fun _ => .ite ?_ ?_
      · exact yields_advance.skip fun _ => yields_advance.skip fun _ => .some (by simp)
      · exact (hself _).bind fun tree => .some (by simp [held])
    · exact .giveUp
  · exact .some (by simp [held])

theorem yields_element (inChild : Bool) : Yields (element self inChild) := by
  refine (yields_expect _).skip fun _ => (yields_sees _).skip fun _ => .ite ?_ ?_
  · refine (yields_leave _).skip fun _ => (yields_children hself).bind fun inside => ?_
    refine (yields_sees _).skip fun _ => ?_
    extract_lets last
    have hlast (u : Unit) : Builds inside (last u) held :=
      (yields_leave _).skip fun _ => .node rfl (List.Sublist.refl _)
    exact .ite .giveUpBind (hlast ())
  refine yields_tag.bind fun opening => yields_isTyped.skip fun _ => ?_
  extract_lets applied
  have happlied (types : List Tree) : Builds (opening.reference ++ types) (applied types) held := by
    refine (yields_settings hself).bind fun fields => (yields_accept _).skip fun _ => .ite ?_ ?_
    · refine (yields_sees _).skip fun _ => ?_
      extract_lets last
      have hlast (u : Unit) : Builds (opening.reference ++ types ++ fields) (last u) held :=
        (yields_leave _).skip fun _ => .node rfl (by simp)
      exact .ite .giveUpBind (hlast ())
    refine (yields_sees _).skip fun _ => ?_
    extract_lets opened
    have hopened (u : Unit) : Builds (opening.reference ++ types ++ fields) (opened u) held := by
      refine (yields_leave _).skip fun _ => (yields_children hself).bind fun inside => ?_
      refine (yields_sees _).skip fun _ => .ite ?_ ?_
      · refine yields_blame.skip fun _ => (yields_leave _).skip fun _ => ?_
        exact .node rfl (by simp [held])
      refine yields_tag.bind fun closing => (yields_blameIf _).skip fun _ => ?_
      refine (yields_sees _).skip fun _ => ?_
      extract_lets last
      have hlast (u : Unit) : Builds (opening.reference ++ types ++ fields ++ inside ++
          closing.reference) (last u) held :=
        (yields_leave _).skip fun _ => .node rfl (by simp)
      exact .ite .giveUpBind (hlast ())
    exact .ite .giveUpBind (hopened ())
  refine .ite ((yields_typeArguments? hself).bind happlied) ?_
  exact .pureBind ((happlied []).of_sublist (by simp [held]))

end Children

end Treeshake.Ecma.ElementGrammar
