import Treeshake.Ecma.Grammar
import Treeshake.Proofs.Ecma.Placement

namespace Treeshake.Ecma

section State

variable {source : List Char} {low : Nat} {s : State} {trees more : List Tree}

-- A parser stands in the source, and what it has built lies between a place and its token.
structure State.Holds (source : List Char) (low : Nat) (s : State) (trees : List Tree) : Prop where
  after : s.after.InSource source
  stands : s.lexeme.Stands source s.after
  laid : Laid source low (Tree.namesAll trees) s.lexeme.span.start
  placed : ∀ tree ∈ trees, tree.Placed false

-- Trees that are made of the given ones.
structure Within (trees more : List Tree) : Prop where
  names : (Tree.namesAll more).Sublist (Tree.namesAll trees)
  placed : (∀ tree ∈ trees, tree.Placed false) → ∀ tree ∈ more, tree.Placed false

theorem State.Holds.within (h : s.Holds source low trees) (hwithin : Within trees more) :
    s.Holds source low more :=
  ⟨h.after, h.stands, h.laid.sublist hwithin.names, hwithin.placed h.placed⟩

theorem State.Holds.here (h : s.Holds source low trees) :
    s.Holds source s.lexeme.span.start [] :=
  ⟨h.after, h.stands, Nat.le_refl _, by simp⟩

-- What is built behind other trees.
theorem State.Holds.append {s' : State} (h : s.Holds source low trees)
    (h' : s'.Holds source s.lexeme.span.start more) : s'.Holds source low (trees ++ more) := by
  refine ⟨h'.after, h'.stands, ?_, ?_⟩
  · rw [Tree.namesAll_append]
    exact h.laid.append h'.laid
  · rw [List.forall_mem_append]
    exact ⟨h.placed, h'.placed⟩

-- A token that a scanner finds from a place behind the start of the one before.
theorem State.Holds.rescan {s' : State} {scanner : Cursor → Lexeme × Cursor} {c : Cursor}
    (h : s.Holds source low trees) (hscan : Scans scanner) (hc : c.InSource source)
    (hstart : s.lexeme.span.start ≤ c.offset) (hlexeme : s'.lexeme = (scanner c).1)
    (hafter : s'.after = (scanner c).2) : s'.Holds source low trees := by
  obtain ⟨hinside, hstands, hle⟩ := hscan source c hc
  have hbehind := Nat.le_trans hstart hle
  rw [← hafter] at hinside
  rw [← hlexeme, ← hafter] at hstands
  rw [← hlexeme] at hbehind
  exact ⟨hinside, hstands, h.laid.of_le_high hbehind, h.placed⟩

-- The next token stands behind the place where the scanner starts.
theorem State.Holds.scan {s' : State} {scanner : Cursor → Lexeme × Cursor} {c : Cursor}
    (h : s.Holds source low trees) (hscan : Scans scanner) (hc : s.after.Reaches c)
    (hlexeme : s'.lexeme = (scanner c).1) (hafter : s'.after = (scanner c).2) :
    s'.Holds source low trees :=
  h.rescan hscan (h.after.trans hc) (Nat.le_trans h.stands.start_le hc.offset_le) hlexeme hafter

-- The token is a name that is spelled where it stands.
theorem State.Holds.scanName {s' : State} {c : Cursor} {text : String}
    (h : s.Holds source low []) (htoken : s.lexeme.token = .name text) (hc : s.after.Reaches c)
    (hlexeme : s'.lexeme = (Lexer.next c).1) (hafter : s'.after = (Lexer.next c).2) :
    s'.Holds source low [.leaf (.use .value text s.lexeme.span)] := by
  obtain ⟨hspelled, hstop⟩ := h.stands.name text htoken
  obtain ⟨-, -, hstart⟩ := Lexer.scans_next source c (h.after.trans hc)
  have hbehind := h.scan Lexer.scans_next hc hlexeme hafter
  have hle : s.lexeme.span.stop ≤ s'.lexeme.span.start := by
    rw [hlexeme]
    exact Nat.le_trans hstop (Nat.le_trans hc.offset_le hstart)
  refine ⟨hbehind.after, hbehind.stands, ?_, by simp [Tree.placed_use]⟩
  simpa [Tree.names_leaf, Form.name?, Laid, hspelled, h.laid.le] using hle

-- Only the token and the place behind it matter.
theorem State.Holds.congr {s' : State} (h : s.Holds source low trees) (hafter : s'.after = s.after)
    (hlexeme : s'.lexeme = s.lexeme) : s'.Holds source low trees := by
  obtain ⟨hs, hstands, hlaid, hplaced⟩ := h
  exact ⟨hafter ▸ hs, by rw [hafter, hlexeme]; exact hstands, by rw [hlexeme]; exact hlaid, hplaced⟩

end State

section Builds

variable {α β : Type} {before : List Tree}

-- If a state holds some trees, and a parser succeeds there, it leads to one that holds others.
def BuildsFrom (s : State) (before : List Tree) (p : Parser α) (behind : α → List Tree) : Prop :=
  ∀ source low a s', p s = .ok a s' → s.Holds source low before → s'.Holds source low (behind a)

def Builds (before : List Tree) (p : Parser α) (behind : α → List Tree) : Prop :=
  ∀ s, BuildsFrom s before p behind

-- The trees in what a parser returns.
class Held (α : Type) where
  held : α → List Tree

export Held (held)

-- A parser by itself.
def Yields [Held α] (p : Parser α) : Prop := Builds [] p held

theorem Builds.pure {behind : α → List Tree} {a : α} (h : Within before (behind a)) :
    Builds before (Pure.pure a) behind := by
  intro s source low a' s' hrun hs
  cases hrun
  exact hs.within h

theorem Builds.bind {p : Parser α} {k : α → Parser β} {mid : α → List Tree} {behind : β → List Tree}
    (h : Builds before p mid) (hk : ∀ a, Builds (mid a) (k a) behind) :
    Builds before (p >>= k) behind := by
  intro s source low b s' hrun hs
  change EStateM.bind p k s = _ at hrun
  unfold EStateM.bind at hrun
  split at hrun
  · next a s₁ hp => exact hk a s₁ source low b s' hrun (h s source low a s₁ hp hs)
  · cases hrun

theorem Builds.frame {p : Parser α} {behind : α → List Tree} (h : Builds [] p behind) :
    Builds before p fun a => before ++ behind a := by
  intro s source low a s' hrun hs
  exact hs.append (h s source _ a s' hrun hs.here)

theorem Builds.within {p : Parser α} {mid behind : α → List Tree} (h : Builds before p mid)
    (hwithin : ∀ a, Within (mid a) (behind a)) : Builds before p behind := by
  intro s source low a s' hrun hs
  exact (h s source low a s' hrun hs).within (hwithin a)

theorem within_of_sublist {trees more : List Tree} (h : more.Sublist trees) :
    Within trees more := by
  refine ⟨?_, fun hplaced tree hmem => hplaced tree (h.subset hmem)⟩
  induction h with
  | slnil => exact .slnil
  | cons tree _ ih => exact ih.trans (List.sublist_append_right _ _)
  | cons_cons tree _ ih => exact (List.Sublist.refl _).append ih

theorem Within.cons {trees more : List Tree} (h : Within trees more) (tree : Tree) :
    Within (tree :: trees) (tree :: more) := by
  refine ⟨by simpa using h.names, fun hplaced => ?_⟩
  rw [List.forall_mem_cons] at hplaced ⊢
  exact ⟨hplaced.1, h.placed hplaced.2⟩

theorem within_node {trees parts : List Tree} {form : Form} (h : Within trees parts)
    (hform : form.isPlain = true) : Within trees [.node form parts] := by
  refine ⟨by simpa [Tree.names_of_plain hform] using h.names, fun hplaced => ?_⟩
  simpa [Tree.placed_of_plain hform] using h.placed hplaced

-- Trees without names, such as declarations.
def Nameless (trees : List Tree) : Prop :=
  Tree.namesAll trees = [] ∧ ∀ tree ∈ trees, tree.Placed false

theorem nameless_nil : Nameless [] := ⟨rfl, by simp⟩

theorem nameless_binds (reach : Reach) (space : Space) (names : List String) :
    Nameless (names.map fun name => .leaf (.bind reach space name)) := by
  refine ⟨?_, fun tree hmem => ?_⟩
  · induction names with
    | nil => rfl
    | cons name names ih => rw [List.map_cons, Tree.namesAll_cons, ih]; rfl
  · obtain ⟨name, -, rfl⟩ := List.mem_map.mp hmem
    exact (Tree.placed_of_plain rfl).mpr (by simp)

theorem nameless_bind (reach : Reach) (space : Space) (name : String) :
    Nameless [.leaf (.bind reach space name)] :=
  nameless_binds reach space [name]

theorem nameless_plain : Nameless [.plain] := by
  have hplaced : Tree.plain.Placed false := (Tree.placed_of_plain rfl).mpr (by simp)
  exact ⟨rfl, by simpa using hplaced⟩

-- A name is looked up in one space or another.
theorem within_use (space : Space) (name : String) (span : Text.Span) :
    Within [.leaf (.use .value name span)] [.leaf (.use space name span)] :=
  ⟨List.Sublist.refl _, fun _ => by simp [Tree.placed_use]⟩

theorem Nameless.within {trees own more : List Tree} (hown : Nameless own)
    (h : Within trees more) : Within trees (own ++ more) := by
  refine ⟨by simpa [hown.1] using h.names, fun hplaced => ?_⟩
  exact List.forall_mem_append.mpr ⟨hown.2, h.placed hplaced⟩

theorem Nameless.behind {trees own more : List Tree} (hown : Nameless own)
    (h : Within trees more) : Within trees (more ++ own) := by
  refine ⟨by simpa [hown.1] using h.names, fun hplaced => ?_⟩
  exact List.forall_mem_append.mpr ⟨h.placed hplaced, hown.2⟩

theorem Builds.of_within {p : Parser α} {before' : List Tree} {behind : α → List Tree}
    (h : Builds before' p behind) (hwithin : Within before before') : Builds before p behind := by
  intro s source low a s' hrun hs
  exact h s source low a s' hrun (hs.within hwithin)

theorem Builds.of_sublist {p : Parser α} {before' : List Tree} {behind : α → List Tree}
    (h : Builds before' p behind) (hsub : before'.Sublist before) : Builds before p behind :=
  h.of_within (within_of_sublist hsub)

-- What is declared on the way is as good as nothing.
theorem Builds.of_nameless {p : Parser α} {own : List Tree} {behind : α → List Tree}
    (h : Builds own p behind) (hown : Nameless own) : Builds [] p behind := by
  have hwithin : Within [] (own ++ []) := hown.within (within_of_sublist (List.Sublist.refl _))
  exact h.of_within (by simpa using hwithin)

theorem Builds.node {form : Form} {parts : List Tree} (hform : form.isPlain = true)
    (hsub : parts.Sublist before) :
    Builds before (Pure.pure (Tree.node form parts)) fun tree => [tree] :=
  .pure (within_node (within_of_sublist hsub) hform)

-- A node around declarations and some of the trees.
theorem Builds.declare {form : Form} {own rest parts : List Tree} (hform : form.isPlain = true)
    (hown : Nameless own) (hparts : parts = own ++ rest) (hsub : rest.Sublist before) :
    Builds before (Pure.pure (Tree.node form parts)) fun tree => [tree] := by
  rw [hparts]
  exact .pure (within_node (hown.within (within_of_sublist hsub)) hform)

-- What is returned is some of the trees.
theorem Builds.some {behind : α → List Tree} {a : α} (h : (behind a).Sublist before) :
    Builds before (Pure.pure a) behind :=
  .pure (within_of_sublist h)

-- What is returned holds no trees.
theorem Builds.nothing {behind : α → List Tree} {a : α} (h : behind a = []) :
    Builds before (Pure.pure a) behind :=
  .some (by rw [h]; exact List.nil_sublist _)

-- What is returned has no names.
theorem Builds.nameless {behind : α → List Tree} {a : α} (h : Nameless (behind a)) :
    Builds before (Pure.pure a) behind := by
  refine .pure ?_
  have hwithin : Within before (behind a ++ []) := h.within (within_of_sublist (List.nil_sublist _))
  simpa using hwithin

theorem Builds.pureBind {a : α} {k : α → Parser β} {behind : β → List Tree}
    (h : Builds before (k a) behind) : Builds before (Pure.pure a >>= k) behind := h

theorem Builds.giveUp {behind : α → List Tree} : Builds before Parser.giveUp behind := by
  intro s source low a s' hrun
  cases hrun

theorem Builds.giveUpBind {k : α → Parser β} {behind : β → List Tree} :
    Builds before (Parser.giveUp >>= k) behind := by
  intro s source low b s' hrun
  cases hrun

theorem Builds.ite {c : Prop} [Decidable c] {p q : Parser α} {behind : α → List Tree}
    (h : Builds before p behind) (h' : Builds before q behind) :
    Builds before (if c then p else q) behind := by
  split
  · exact h
  · exact h'

section Steps

variable {p : Parser α} {k : α → Parser β} {behind : β → List Tree}

theorem within_left {trees more : List Tree} : Within (trees ++ more) trees :=
  within_of_sublist (List.sublist_append_left _ _)

theorem within_right {trees more : List Tree} : Within (trees ++ more) more :=
  within_of_sublist (List.sublist_append_right _ _)

-- A step whose trees are kept, or some of them.
theorem Builds.step {kept : α → List Tree} (h : Builds [] p kept)
    (hk : ∀ a, Builds (before ++ kept a) (k a) behind) : Builds before (p >>= k) behind :=
  Builds.bind (Builds.frame h) hk

variable [Held α]

theorem Yields.bind (h : Yields p) (hk : ∀ a, Builds (before ++ held a) (k a) behind) :
    Builds before (p >>= k) behind :=
  Builds.step h hk

-- A step whose trees, if there are any, are dropped.
theorem Yields.skip (h : Yields p) (hk : ∀ a, Builds before (k a) behind) :
    Builds before (p >>= k) behind :=
  Builds.bind ((Builds.frame h).within fun _ => within_left) hk

-- A last step whose trees are all that is kept.
theorem Yields.last (h : Yields p) : Builds before p held :=
  (Builds.frame h).within fun _ => within_right

end Steps

end Builds

section Instances

instance : Held Unit := ⟨fun _ => []⟩
instance : Held Bool := ⟨fun _ => []⟩
instance : Held String := ⟨fun _ => []⟩
instance : Held Token := ⟨fun _ => []⟩
instance : Held Flags := ⟨fun _ => []⟩
instance : Held State := ⟨fun _ => []⟩
instance : Held Text.Span := ⟨fun _ => []⟩
instance : Held Tree := ⟨fun tree => [tree]⟩
instance : Held (List Tree) := ⟨fun trees => trees⟩
instance {α : Type} [Held α] : Held (Option α) := ⟨fun found => found.elim [] held⟩
instance {α β : Type} [Held α] [Held β] : Held (α × β) := ⟨fun pair => held pair.1 ++ held pair.2⟩

-- A name where it stands is as good as a tree that reads it.
instance (priority := high) : Held (String × Text.Span) :=
  ⟨fun (name, span) => [.leaf (.use .value name span)]⟩

end Instances

section Found

variable {before : List Tree}

-- The same behind a test.
theorem Builds.found {form : Form} {parts : List Tree} (hform : form.isPlain = true)
    (hsub : parts.Sublist before) :
    Builds before (Pure.pure (Option.some (Tree.node form parts))) held :=
  .pure (within_node (within_of_sublist hsub) hform)

theorem Builds.plain : Builds before (Pure.pure Tree.plain) held := .nameless nameless_plain

theorem Builds.foundPlain : Builds before (Pure.pure (Option.some Tree.plain)) held :=
  .nameless nameless_plain

end Found

-- Whatever a rule nests keeps to it.
def Grammar.Yields (self : Grammar) : Prop := ∀ rule, Ecma.Yields (self rule)

namespace Parser

variable {α β : Type}

theorem yields_of_same [Held α] {p : Parser α} {f : State → α} (hp : ∀ s, p s = .ok (f s) s)
    (hheld : ∀ a : α, held a = []) : Yields p := by
  intro s source low a s' hrun hs
  rw [hp] at hrun
  cases hrun
  rw [hheld]
  exact hs

-- What follows may look at the state that it starts from.
theorem builds_get {before : List Tree} {k : State → Parser β} {behind : β → List Tree}
    (h : ∀ s, BuildsFrom s before (k s) behind) : Builds before (get >>= k) behind := h

theorem builds_token {before : List Tree} {k : Token → Parser β} {behind : β → List Tree}
    (h : ∀ s, BuildsFrom s before (k s.lexeme.token) behind) : Builds before (token >>= k) behind :=
  h

theorem yields_get : Yields (get : Parser State) := yields_of_same (fun _ => rfl) fun _ => rfl

theorem yields_token : Yields token := yields_of_same (fun _ => rfl) fun _ => rfl

theorem yields_flags : Yields flags := yields_of_same (fun _ => rfl) fun _ => rfl

theorem yields_isTyped : Yields isTyped := yields_of_same (fun _ => rfl) fun _ => rfl

theorem yields_span : Yields span := yields_of_same (fun _ => rfl) fun _ => rfl

theorem yields_afterBreak : Yields afterBreak := yields_of_same (fun _ => rfl) fun _ => rfl

theorem yields_modify {f : State → State} (hafter : ∀ s, (f s).after = s.after)
    (hlexeme : ∀ s, (f s).lexeme = s.lexeme) : Yields (modify f : Parser Unit) := by
  intro s source low a s' hrun hs
  cases hrun
  exact hs.congr (hafter s) (hlexeme s)

theorem yields_setFlags (f : State → Flags) :
    Yields (modify fun s => { s with flags := f s } : Parser Unit) :=
  yields_modify (fun _ => rfl) fun _ => rfl

theorem yields_blame : Yields blame := yields_modify (fun _ => rfl) fun _ => rfl

theorem yields_blameIf (wrong : Bool) : Yields (blameIf wrong) := by
  refine .ite yields_blame (.pure ⟨by simp [held], by simp [held]⟩)

section Tokens

theorem yields_checkKeyword : Yields checkKeyword := by
  refine yields_get.skip fun s => ?_
  split
  · exact (yields_blameIf _).last
  · exact .nothing rfl

theorem yields_advanceWith {scanner : Cursor → Lexeme × Cursor} (hscan : Scans scanner) :
    Yields (advanceWith scanner) := by
  intro s source low a s' hrun hs
  cases hrun
  exact hs.scan hscan (.refl _) rfl rfl

theorem yields_advanceName : Yields advanceName := yields_advanceWith Lexer.scans_next

theorem yields_advance : Yields advance := yields_checkKeyword.skip fun _ => yields_advanceName

theorem yields_sees (mark : String) : Yields (sees mark) :=
  yields_of_same (fun _ => rfl) fun _ => rfl

theorem yields_seesWord (word : String) : Yields (seesWord word) :=
  yields_of_same (fun _ => rfl) fun _ => rfl

theorem yields_seesAny (words : List String) : Yields (seesAny words) :=
  yields_of_same (fun _ => rfl) fun _ => rfl

theorem yields_seesEnd : Yields seesEnd := yields_of_same (fun _ => rfl) fun _ => rfl

theorem yields_accept (mark : String) : Yields (accept mark) := by
  refine (yields_sees mark).skip fun _ => .ite ?_ ?_
  · exact yields_advance.skip fun _ => .nothing rfl
  · exact .nothing rfl

theorem yields_acceptWord (word : String) : Yields (acceptWord word) := by
  refine (yields_seesWord word).skip fun _ => .ite ?_ ?_
  · exact yields_advance.skip fun _ => .nothing rfl
  · exact .nothing rfl

theorem yields_expect (mark : String) : Yields (expect mark) :=
  (yields_accept mark).skip fun _ => .ite .giveUp (.nothing rfl)

theorem yields_expectWord (word : String) : Yields (expectWord word) :=
  (yields_acceptWord word).skip fun _ => .ite .giveUp (.nothing rfl)

theorem yields_canEnd : Yields canEnd := yields_of_same (fun _ => rfl) fun _ => rfl

theorem yields_endStatement : Yields endStatement := by
  refine (yields_accept _).skip fun _ => .ite ?_ (.nothing rfl)
  exact yields_canEnd.skip fun _ => .ite .giveUp (.nothing rfl)

theorem yields_isIdentifier : Yields isIdentifier := by
  refine yields_token.skip fun t => ?_
  split <;> exact .nothing rfl

theorem yields_checkIdentifier (text : String) : Yields (checkIdentifier text) :=
  yields_flags.skip fun _ => yields_blameIf _

end Tokens

section Wrapped

theorem yields_and {p q : Parser Bool} (hp : Yields p) (hq : Yields q) : Yields (p <&&> q) := by
  refine hp.skip fun b => ?_
  cases b with
  | false => exact .nothing rfl
  | true => exact hq

theorem yields_or {p q : Parser Bool} (hp : Yields p) (hq : Yields q) : Yields (p <||> q) := by
  refine hp.skip fun b => ?_
  cases b with
  | false => exact hq
  | true => exact .nothing rfl

variable [Held α] {p : Parser α}

theorem yields_under (change : Flags → Flags) (h : Yields p) : Yields (under change p) := by
  refine yields_flags.skip fun old => ?_
  refine (yields_setFlags fun s => change s.flags).skip fun _ => h.bind fun a => ?_
  exact (yields_setFlags fun _ => old).skip fun _ => .some (by simp)

-- A parser that gives up leaves nothing but notes.
theorem yields_attempt (h : Yields p) : Yields (attempt p) := by
  intro s source low a s' hrun hs
  unfold attempt at hrun
  split at hrun
  · next a _ hp =>
    cases hrun
    exact h s source low a s' hp hs
  · cases hrun
    exact hs.congr rfl rfl

theorem yields_attemptOption {p : Parser (Option α)} (h : Yields p) : Yields (attemptOption p) := by
  intro s source low a s' hrun hs
  unfold attemptOption at hrun
  split at hrun
  · next a _ hp =>
    cases hrun
    exact h s source low (some a) s' hp hs
  · cases hrun
    exact hs.congr rfl rfl
  · cases hrun
    exact hs.congr rfl rfl

-- What a preview does is undone.
theorem yields_preview (hheld : ∀ a : α, held a = []) (fallback : α) (p : Parser α) :
    Yields (preview fallback p) := by
  intro s source low a s' hrun hs
  unfold preview at hrun
  rw [hheld]
  split at hrun <;>
  · cases hrun
    exact hs.congr rfl rfl

theorem yields_ahead (p : Parser Bool) : Yields (ahead p) := yields_preview (fun _ => rfl) false p

theorem yields_nextIs (p : Parser Bool) : Yields (nextIs p) := yields_ahead _

theorem yields_nextOnLineIs (p : Parser Bool) : Yields (nextOnLineIs p) := yields_ahead _

end Wrapped

section Loops

variable {σ : Type} {step : σ → Parser (Option σ)}

-- A loop keeps to what every round keeps to.
theorem builds_loop {trees : σ → List Tree}
    (h : ∀ s, Builds (trees s) (step s) fun next => trees (next.getD s))
    (fuel : Nat) (s : σ) : Builds (trees s) (loop step fuel s) trees := by
  induction fuel generalizing s with
  | zero => exact .giveUp
  | succ fuel ih =>
    refine (h s).bind fun next => ?_
    cases next with
    | none => exact .some (by simp)
    | some s' => exact ih s'

theorem builds_iterate {before : List Tree} {s : σ} (trees : σ → List Tree)
    (h : ∀ s, Builds (trees s) (step s) fun next => trees (next.getD s))
    (hs : (trees s).Sublist before) : Builds before (iterate step s) trees :=
  yields_get.skip fun _ => (builds_loop h _ s).of_sublist hs

theorem yields_collect {more : Parser (Option Tree)} (h : Yields more) : Yields (collect more) := by
  refine (builds_iterate List.reverse (fun done => ?_) (by simp)).bind fun found => ?_
  · refine h.bind fun found => .some ?_
    cases found <;> simp [held]
  · exact .some (by simp [held])

theorem yields_commaList (close : String) {item : Parser Tree} (h : Yields item) :
    Yields (commaList close item) := by
  refine (builds_iterate (fun state => state.1.reverse) ?_ (by simp)).bind fun found => ?_
  · rintro ⟨done, first, trailing⟩
    refine (yields_sees close).skip fun _ => .ite (.some (by simp)) ?_
    extract_lets jump
    have hjump (u : Unit) : Builds done.reverse (jump u) fun next =>
        (next.getD (done, first, trailing)).1.reverse := by
      refine (yields_sees close).skip fun _ => .ite (.some (by simp)) ?_
      exact h.bind fun tree => .some (by simp [held])
    exact .ite ((yields_expect _).skip hjump) (hjump ())
  · exact .some (by simp [held])

theorem yields_enclosed (opening close : String) {item : Parser Tree} (h : Yields item) :
    Yields (enclosed opening close item) := by
  refine (yields_expect _).skip fun _ => (yields_commaList close h).bind fun items => ?_
  exact (yields_expect _).skip fun _ => .some (by simp [held])

end Loops

section Names

theorem yields_placedName : Yields placedName := by
  refine builds_token fun s => ?_
  split
  · next text htoken =>
    intro source low entry s' hrun hs
    cases hrun
    exact hs.scanName htoken (.refl _) rfl rfl
  · exact Builds.giveUp s

theorem yields_anyName : Yields anyName := yields_placedName.skip fun _ => .nothing rfl

theorem yields_identifier : Yields identifier := by
  refine yields_isIdentifier.skip fun _ => ?_
  extract_lets jump
  have hjump (u : Unit) : Builds [] (jump u) held :=
    yields_placedName.bind fun (text, place) =>
      (yields_checkIdentifier text).skip fun _ => .some (by simp [held])
  exact .ite .giveUpBind (hjump ())

end Names

section Angles

theorem yields_wideMark : Yields wideMark := by
  refine yields_get.skip fun s => ?_
  split <;> exact .nothing rfl

theorem checkKeyword_after {s s' : State} {a : Unit} (h : checkKeyword s = .ok a s') :
    s'.after = s.after := by
  obtain ⟨dialect, flags, ⟨token, span, afterBreak, escaped, sound⟩, after⟩ := s
  cases token <;> cases escaped <;> try (cases h; rfl)
  next text =>
    have hblame : blameIf (isKeyword text) _ = .ok a s' := h
    cases hkeyword : isKeyword text <;>
    · rw [hkeyword] at hblame
      cases hblame
      rfl

theorem advance_cases {s s' : State} {a : Unit} (h : advance s = .ok a s') :
    s'.lexeme = (Lexer.next s.after).1 ∧ s'.after = (Lexer.next s.after).2 := by
  change EStateM.bind checkKeyword (fun _ => advanceName) s = _ at h
  unfold EStateM.bind at h
  split at h
  · next hcheck =>
    cases h
    rw [← checkKeyword_after hcheck]
    exact ⟨rfl, rfl⟩
  · cases h

-- An operator of several closing angles is taken as a whole.
theorem yields_advanceWide (mark : String) : Yields (advanceWide mark) := by
  refine builds_token fun s => ?_
  split
  · intro source low a s' hrun hs
    obtain ⟨hlexeme, hafter⟩ := advance_cases (s := { s with after := s.after.skip _ }) hrun
    exact hs.scan Lexer.scans_next (Cursor.reaches_skip _ _) hlexeme hafter
  · exact yields_advance s

-- The first of two angles that stand together is a token of its own.
theorem yields_splitAngle : Yields splitAngle := by
  refine builds_get fun s => ?_
  split
  · exact Builds.nothing rfl s
  · next htoken =>
    intro source low a s' hrun hs
    cases hrun
    obtain ⟨c, hc, hrest, hoffset, hstart⟩ := hs.stands.mark "<<" htoken
    have hsecond : Cursor.Reaches c ⟨'<' :: s.after.rest, s.after.offset - 1⟩ :=
      ⟨['<'], by simpa using hrest, by rw [← hoffset]; rfl⟩
    have hinside := hc.trans hsecond
    refine ⟨hinside, ⟨Nat.le_trans hstart hsecond.offset_le, by simp, fun text hmark => ?_⟩,
      hs.laid, hs.placed⟩
    obtain rfl := Token.mark.inj hmark
    exact ⟨c, hc, by simpa using hrest, by rw [← hoffset]; rfl, hstart⟩
  · exact Builds.nothing rfl s

end Angles

end Parser

end Treeshake.Ecma
