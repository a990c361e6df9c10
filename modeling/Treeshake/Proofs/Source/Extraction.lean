import Treeshake.Proofs.Pattern.Pieces
import Treeshake.Proofs.Source.Segments
import Treeshake.Proofs.Source.Vocabulary

namespace Treeshake.Source

open Library Pattern

namespace Declaration

-- The name under which the library's table has it.
def key (d : Declaration) : String :=
  match d.kind with
  | .component => String.ofList d.name
  | .directive => Convention.directivePrefix ++ String.ofList d.name

def mapped (m : Manifest) (d : Declaration) : Bool := (m.convention.canonical? d.key).isSome

def specifier? (m : Manifest) (d : Declaration) : Option Import.Specifier :=
  (m.convention.canonical? d.key).map fun exported => ⟨exported.toList, d.bound⟩

end Declaration

def declarationsOf (kind : NameKind) (segments : List Segment) : List Declaration :=
  segments.filterMap fun
    | .char _ => none
    | .declaration d => if d.kind = kind then some d else none

def specifiersOf (m : Manifest) (kind : NameKind) (segments : List Segment) :
    List Import.Specifier :=
  (declarationsOf kind segments).filterMap (Declaration.specifier? m)

-- What is imported for components and directives, in this order.
def importsOf (m : Manifest) (components directives : List Segment) : List Import.Specifier :=
  specifiersOf m .component components ++ specifiersOf m .directive directives

section Extract

variable {m : Manifest} {v : Vocabulary} {r : Resolution}

theorem Resolution.Serves.import?_found (hr : r.Serves m v) (d : Declaration)
    (behind rest : List Char) :
    r.import? d.kind (d.found behind rest) = (d.specifier? m).map (Import.line m.internalPath) := by
  have hname : (d.found behind rest).group "name" = d.name := rfl
  have hlocal : (d.found behind rest).group "local" = d.bound := rfl
  have hkey : r.canonical? d.kind d.name = m.convention.canonical? d.key := by
    cases hkind : d.kind <;>
      simp [Resolution.canonical?, Declaration.key, hkind, hr.exports_eq, Convention.canonical?]
  rw [Resolution.import?, hname, hlocal, hkey, hr.path_eq, Declaration.specifier?, Option.map_map]
  rfl

theorem eats_of_finds {p : Pattern} {names : NameKind → List (List Char)} (hp : Finds p names) :
    Eats p := by
  rintro ⟨behind, text⟩ m hm
  obtain ⟨d, rest, -, rfl⟩ := (hp behind text m).mp hm
  exact d.text_ne_nil

theorem Finds.eq_none {p : Pattern} {names : NameKind → List (List Char)} (hp : Finds p names)
    {text : List Char} (hnone : ∀ d rest, ¬Declares names text d rest) (behind : List Char) :
    matchAt p ⟨behind, text⟩ = none := by
  rw [Option.eq_none_iff_forall_ne_some]
  intro m hm
  obtain ⟨d, rest, hd, -⟩ := (hp behind text m).mp hm
  exact hnone d rest hd

theorem not_declares_nil {names : NameKind → List (List Char)} (d : Declaration)
    (rest : List Char) : ¬Declares names [] d rest := by
  intro hd
  exact d.text_ne_nil (List.append_eq_nil_iff.mp hd.1.symm).1

def collect (g : Declaration → Option (List Char)) (segments : List Segment) : List (List Char) :=
  segments.filterMap fun
    | .char _ => none
    | .declaration d => g d

-- What is gathered from the pieces of a text.
def gather (f : Match → Option (List Char)) (pieces : Pieces) : Resolution.Extract :=
  ⟨pieces.found.filterMap fun (_, m) => f m,
    (pieces.found.flatMap fun (before, m) => before ++ if (f m).isSome then [] else m.text) ++
      pieces.tail⟩

theorem gather_skip (f : Match → Option (List Char)) (c : Char) (pieces : Pieces) :
    gather f (pieces.skip c) = ⟨(gather f pieces).imports, c :: (gather f pieces).text⟩ := by
  obtain ⟨found, tail⟩ := pieces
  cases found with
  | nil => simp [gather, Pieces.skip]
  | cons piece found => simp [gather, Pieces.skip, List.filterMap_cons]

theorem gather_found (f : Match → Option (List Char)) (m : Match) (pieces : Pieces) :
    gather f ⟨([], m) :: pieces.found, pieces.tail⟩ =
      ⟨(f m).toList ++ (gather f pieces).imports,
        (if (f m).isSome then [] else m.text) ++ (gather f pieces).text⟩ := by
  cases hm : f m <;> simp [gather, hm]

-- The pieces of a text are its segments: the matches are the declarations.
theorem gather_piecesFrom {p : Pattern} {names : NameKind → List (List Char)} (hp : Finds p names)
    {f : Match → Option (List Char)} {g : Declaration → Option (List Char)}
    (hf : ∀ d behind rest, f (d.found behind rest) = g d) {text : List Char}
    {segments : List Segment} (h : Segmented names text segments) {fuel : Nat}
    (hfuel : segments.length ≤ fuel) (afterMatch : Bool) (behind : List Char) :
    gather f (p.piecesFrom afterMatch (fuel + 1) ⟨behind, text⟩) =
      ⟨collect g segments, textOf (without (fun d => (g d).isSome) segments)⟩ := by
  have heats := eats_of_finds hp
  induction h generalizing fuel afterMatch behind with
  | nil =>
    rw [piecesFrom_nil_of_none heats (hp.eq_none not_declares_nil behind)]
    rfl
  | @char c text segments hnone h ih =>
    rw [List.length_cons] at hfuel
    rw [piecesFrom_cons_of_none heats (hp.eq_none hnone behind), gather_skip, ih (by omega),
      without_char, textOf_char]
    rfl
  | @declaration text rest d segments hd h ih =>
    have hsome : matchAt p ⟨behind, text⟩ = some (d.found behind rest) :=
      (hp _ _ _).mpr ⟨d, rest, hd, rfl⟩
    rw [List.length_cons] at hfuel
    obtain ⟨fuel, rfl⟩ := Nat.exists_eq_add_of_le' (Nat.le_of_add_left_le hfuel)
    have hmore := ih (Nat.le_of_succ_le_succ hfuel) true (d.text.reverse ++ behind)
    rw [piecesFrom_of_some heats hsome, gather_found, hf]
    have hstop : (d.found behind rest).stop = ⟨d.text.reverse ++ behind, rest⟩ := rfl
    rw [hstop, hmore]
    cases hg : g d with
    | none =>
      rw [without_kept (by simp [hg]), textOf_cons]
      simp [hg, collect, Segment.text, Declaration.found]
    | some line =>
      rw [without_dropped (by simp [hg])]
      simp [hg, collect]

-- The import that a pass makes of a declaration.
def Resolution.line? (r : Resolution) (kind : NameKind) (d : Declaration) : Option (List Char) :=
  r.import? kind (d.found [] [])

-- One pass, whatever it cuts the text into.
theorem extract_segmented (r : Resolution) {kind : NameKind} {p : Pattern}
    {names : NameKind → List (List Char)} (hp : Finds p names) {text : List Char}
    {segments : List Segment} (h : Segmented names text segments) :
    r.extract kind p text =
      ⟨collect (r.line? kind) segments,
        textOf (without (fun d => (r.line? kind d).isSome) segments)⟩ := by
  have hlength : segments.length ≤ 2 * text.length + 1 := by
    have hle := h.length_le
    omega
  have hline : ∀ (d : Declaration) (behind rest : List Char),
      r.import? kind (d.found behind rest) = r.line? kind d := fun _ _ _ => rfl
  exact gather_piecesFrom hp hline h hlength false []

-- The declarations of a kind that a pass takes out.
def dropped (m : Manifest) (kind : NameKind) (d : Declaration) : Bool :=
  d.kind = kind && d.mapped m

theorem isSome_specifier? (m : Manifest) (d : Declaration) :
    (d.specifier? m).isSome = d.mapped m := by
  simp [Declaration.specifier?, Declaration.mapped]

section Spelled

variable {kind : NameKind} {g : Declaration → Option (List Char)}

theorem specifiersOf_declaration {d : Declaration} (hkind : d.kind = kind)
    (segments : List Segment) :
    specifiersOf m kind (.declaration d :: segments) =
      (d.specifier? m).toList ++ specifiersOf m kind segments := by
  cases hd : d.specifier? m <;> simp [specifiersOf, declarationsOf, hkind, hd]

theorem specifiersOf_other {d : Declaration} (hkind : d.kind ≠ kind) (segments : List Segment) :
    specifiersOf m kind (.declaration d :: segments) = specifiersOf m kind segments := by
  simp [specifiersOf, declarationsOf, hkind]

theorem collect_chars (g : Declaration → Option (List Char)) (w : List Char)
    (segments : List Segment) :
    collect g (w.map Segment.char ++ segments) = collect g segments := by
  induction w with
  | nil => rfl
  | cons c w ih => exact ih

theorem textOf_without_chars (drop : Declaration → Bool) (w : List Char)
    (segments : List Segment) :
    textOf (without drop (w.map Segment.char ++ segments)) =
      w ++ textOf (without drop segments) := by
  induction w with
  | nil => rfl
  | cons c w ih => rw [List.map_cons, List.cons_append, without_char, textOf_char, ih]; rfl

-- A pass for one kind takes the other kind for plain text.
theorem collect_spell (hg : ∀ d, d.kind = kind →
      g d = (d.specifier? m).map (Import.line m.internalPath)) (segments : List Segment) :
    collect g (segments.flatMap (spell kind)) =
      (specifiersOf m kind segments).map (Import.line m.internalPath) := by
  induction segments with
  | nil => rfl
  | cons s segments ih =>
    cases s with
    | char c => exact ih
    | declaration d =>
      rw [List.flatMap_cons, spell]
      by_cases hkind : d.kind = kind
      · rw [if_pos hkind, specifiersOf_declaration hkind, List.map_append, ← ih]
        cases hd : d.specifier? m <;> simp [collect, hg d hkind, hd]
      · rw [if_neg hkind, collect_chars, specifiersOf_other hkind, ih]

theorem textOf_without_spell (hg : ∀ d, d.kind = kind → (g d).isSome = d.mapped m)
    (segments : List Segment) :
    textOf (without (fun d => (g d).isSome) (segments.flatMap (spell kind))) =
      textOf (without (dropped m kind) segments) := by
  induction segments with
  | nil => rfl
  | cons s segments ih =>
    cases s with
    | char c => exact congrArg (c :: ·) ih
    | declaration d =>
      rw [List.flatMap_cons, spell]
      by_cases hkind : d.kind = kind
      · rw [if_pos hkind, List.singleton_append]
        cases hd : d.mapped m with
        | true =>
          rw [without_dropped (by rw [hg d hkind, hd]),
            without_dropped (by simp [dropped, hkind, hd]), ih]
        | false =>
          rw [without_kept (by rw [hg d hkind, hd]), without_kept (by simp [dropped, hd]),
            textOf_cons, textOf_cons, ih]
      · rw [if_neg hkind, textOf_without_chars, without_kept (by simp [dropped, hkind]),
          textOf_cons, ih]
        rfl

end Spelled

theorem Resolution.Serves.extract_eq (hr : r.Serves m v) {kind : NameKind} {p : Pattern}
    (hp : Finds p (ofKind kind v.names)) {text : List Char} {segments : List Segment}
    (h : Segmented v.names text segments) :
    r.extract kind p text =
      ⟨(specifiersOf m kind segments).map (Import.line m.internalPath),
        textOf (without (dropped m kind) segments)⟩ := by
  have hline : ∀ d : Declaration, d.kind = kind → r.line? kind d =
      (d.specifier? m).map (Import.line m.internalPath) := by
    rintro d rfl
    exact hr.import?_found d [] []
  have hsome : ∀ d : Declaration, d.kind = kind → (r.line? kind d).isSome = d.mapped m := by
    intro d hd
    rw [hline d hd, Option.isSome_map, isSome_specifier?]
  rw [extract_segmented r hp (h.spell kind), collect_spell hline, textOf_without_spell hsome]

-- Both passes: the second one reads what the first one leaves.
theorem Resolution.Serves.replace?_eq (hr : r.Serves m v) {source : String}
    {segments left : List Segment} (h : Segmented v.names source.toList segments)
    (hleft : Segmented v.names (textOf (without (dropped m .component) segments)) left) :
    r.replace? source =
      if importsOf m segments left = [] then none
      else some (String.ofList ((importsOf m segments left).flatMap (Import.line m.internalPath) ++
        textOf (without (dropped m .directive) left))) := by
  rw [Resolution.replace?, hr.extract_eq hr.components_finds h,
    hr.extract_eq hr.directives_finds hleft, ← List.map_append]
  simp only [List.isEmpty_iff, List.map_eq_nil_iff, ← List.flatMap_def, importsOf]
  exact if_congr Iff.rfl rfl rfl

end Extract

end Treeshake.Source
