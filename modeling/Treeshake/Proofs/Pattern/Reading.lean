import Treeshake.Proofs.Pattern.Matching
import Treeshake.Proofs.Text.Pieces

namespace Treeshake.Pattern.Reader

-- A reader that comes from one place in a text to another, in no more steps than it takes
-- characters.
def Leads (s : State) (text : List Char) (s' : State) (text' : List Char) : Prop :=
  ∃ steps, steps + text'.length ≤ text.length ∧
    ∀ fuel, readFrom? (steps + fuel) s text = readFrom? fuel s' text'

theorem Leads.trans {s s' s'' : State} {text text' text'' : List Char} (h : Leads s text s' text')
    (h' : Leads s' text' s'' text'') : Leads s text s'' text'' := by
  obtain ⟨steps, hle, hread⟩ := h
  obtain ⟨steps', hle', hread'⟩ := h'
  refine ⟨steps + steps', by omega, fun fuel => ?_⟩
  rw [Nat.add_assoc, hread, hread']

theorem readFrom?_succ {fuel : Nat} {s : State} {text : List Char} {p : Pattern}
    (h : readFrom? fuel s text = some p) : readFrom? (fuel + 1) s text = some p := by
  induction fuel generalizing s text with
  | zero => simp [readFrom?] at h
  | succ fuel ih =>
    rw [readFrom?] at h ⊢
    split at h
    · exact h
    · next c rest _ =>
      simp only [Option.bind_eq_bind, Option.bind_eq_some_iff] at h ⊢
      obtain ⟨⟨s', rest'⟩, hstep, hread⟩ := h
      exact ⟨⟨s', rest'⟩, hstep, ih hread⟩

theorem readFrom?_of_le {fuel fuel' : Nat} {s : State} {text : List Char} {p : Pattern}
    (h : readFrom? fuel s text = some p) (hle : fuel ≤ fuel') : readFrom? fuel' s text = some p := by
  obtain ⟨more, rfl⟩ := Nat.exists_eq_add_of_le hle
  clear hle
  induction more with
  | zero => exact h
  | succ more ih => exact readFrom?_succ ih

-- A text that is read to its end from where a reader stands.
def Reads (s : State) (text : List Char) (p : Pattern) : Prop :=
  ∃ fuel, readFrom? fuel s text = some p

theorem Leads.reads_iff {s s' : State} {text text' : List Char} (h : Leads s text s' text')
    {p : Pattern} : Reads s text p ↔ Reads s' text' p := by
  obtain ⟨steps, -, hread⟩ := h
  constructor
  · rintro ⟨fuel, hp⟩
    have hp' := readFrom?_of_le hp (Nat.le_add_left fuel steps)
    exact ⟨fuel, by rwa [hread] at hp'⟩
  · rintro ⟨fuel, hp⟩
    exact ⟨steps + fuel, by rwa [hread]⟩

-- Without the verbose flag nothing is passed over.
theorem skip_default (text : List Char) : Flags.skip {} text = text := by
  cases text <;> simp [Flags.skip, skipBlanks]

theorem readFrom?_nil {s : State} (hflags : s.flags = {}) (hframes : s.frames = []) (fuel : Nat) :
    readFrom? (fuel + 1) s [] = some s.whole := by
  simp [readFrom?, hflags, hframes, skip_default]

theorem Leads.readFrom?_eq {s s' : State} {text : List Char} (h : Leads s text s' [])
    (hflags : s'.flags = {}) (hframes : s'.frames = []) :
    readFrom? (text.length + 1) s text = some s'.whole := by
  obtain ⟨steps, hle, hread⟩ := h
  have hread' := hread 1
  rw [readFrom?_nil hflags hframes 0] at hread'
  exact readFrom?_of_le hread' (Nat.succ_le_succ hle)

section Tokens

variable {frames : List Frame} {choices parts : List Pattern} {canRepeat : Bool}
  {names : List String} {rest : List Char}

theorem Leads.step {s : State} {s' : State} {c : Char} {rest' : List Char} (hflags : s.flags = {})
    (hstep : step? s c rest = some (s', rest')) (hlen : rest'.length ≤ rest.length) :
    Leads s (c :: rest) s' rest' := by
  refine ⟨1, by rw [List.length_cons]; omega, fun fuel => ?_⟩
  rw [Nat.add_comm, readFrom?, hflags, skip_default]
  simp only [hstep, Option.bind_eq_bind, Option.bind_some]

-- Characters that stand for themselves.
def IsPlain (c : Char) : Prop := c ∉ "()|[?*+\x7b.^$\\".toList

instance (c : Char) : Decidable (IsPlain c) := by
  unfold IsPlain
  infer_instance

theorem step?_plain (s : State) {c : Char} (hc : IsPlain c) (rest : List Char) :
    step? s c rest = some (s.push (.set (cased s.flags (.only c))), rest) := by
  unfold step?
  split <;> first | rfl | exact absurd hc (by decide)

theorem leads_plain {c : Char} (hc : IsPlain c) :
    Leads ⟨{}, frames, choices, parts, canRepeat, names⟩ (c :: rest)
      ⟨{}, frames, choices, .set (.only c) :: parts, true, names⟩ rest :=
  .step rfl (step?_plain _ hc rest) (Nat.le_refl _)

theorem leads_word {w : List Char} (hw : ∀ c ∈ w, IsPlain c) :
    Leads ⟨{}, frames, choices, parts, canRepeat, names⟩ (w ++ rest)
      ⟨{}, frames, choices, (literal w).reverse ++ parts, canRepeat || !w.isEmpty, names⟩ rest := by
  induction w generalizing parts canRepeat with
  | nil =>
    refine ⟨0, by simp, fun fuel => ?_⟩
    simp [literal]
  | cons c w ih =>
    have hword : Leads ⟨{}, frames, choices, .set (.only c) :: parts, true, names⟩ (w ++ rest)
        ⟨{}, frames, choices, (literal w).reverse ++ .set (.only c) :: parts, true, names⟩ rest :=
      ih fun d hd => hw d (by simp [hd])
    refine (leads_plain (hw c (by simp))).trans ?_
    simpa [literal] using hword

theorem leads_blank :
    Leads ⟨{}, frames, choices, parts, canRepeat, names⟩ ('\\' :: 's' :: rest)
      ⟨{}, frames, choices, .set (.property .blank) :: parts, true, names⟩ rest :=
  .step rfl rfl (by simp)

theorem step?_escaped (s : State) {c : Char} (hc : isMeta c = true) (rest : List Char) :
    step? s '\\' (c :: rest) = some (s.push (.set (cased s.flags (.only c))), rest) := by
  have hall : ∀ d ∈ "\\.+*?()|[]\x7b\x7d^$#&-~".toList,
      step? s '\\' (d :: rest) = some (s.push (.set (cased s.flags (.only d))), rest) := by
    simp only [String.reduceToList, List.forall_mem_cons, List.not_mem_nil, false_implies,
      implies_true, and_true]
    and_intros <;> rfl
  exact hall c (by simpa [isMeta] using hc)

-- A character behind a backslash stands for itself, if it would mean something without.
theorem leads_escaped {c : Char} (hc : isMeta c = true) :
    Leads ⟨{}, frames, choices, parts, canRepeat, names⟩ ('\\' :: c :: rest)
      ⟨{}, frames, choices, .set (.only c) :: parts, true, names⟩ rest :=
  .step rfl (step?_escaped _ hc rest) (Nat.le_succ _)

-- A text as a pattern for itself.
def escape (text : List Char) : List Char :=
  text.flatMap fun c => if isMeta c then ['\\', c] else [c]

theorem isPlain_of_not_isMeta {c : Char} (h : isMeta c = false) : IsPlain c := by
  intro hmem
  have hall : ∀ d ∈ "()|[?*+\x7b.^$\\".toList, isMeta d = true := by decide
  simp [hall c hmem] at h

-- Whatever a text is, it is read as itself.
theorem leads_escape (text : List Char) :
    Leads ⟨{}, frames, choices, parts, canRepeat, names⟩ (escape text ++ rest)
      ⟨{}, frames, choices, (literal text).reverse ++ parts, canRepeat || !text.isEmpty, names⟩
        rest := by
  induction text generalizing parts canRepeat with
  | nil =>
    refine ⟨0, by simp [escape], fun fuel => ?_⟩
    simp [escape, literal]
  | cons c text ih =>
    have htext : Leads ⟨{}, frames, choices, .set (.only c) :: parts, true, names⟩
        (escape text ++ rest)
        ⟨{}, frames, choices, (literal text).reverse ++ .set (.only c) :: parts, true, names⟩ rest :=
      ih
    have hfirst : Leads ⟨{}, frames, choices, parts, canRepeat, names⟩ (escape (c :: text) ++ rest)
        ⟨{}, frames, choices, .set (.only c) :: parts, true, names⟩ (escape text ++ rest) := by
      cases hc : isMeta c with
      | true => simpa [escape, hc] using leads_escaped hc
      | false => simpa [escape, hc] using leads_plain (isPlain_of_not_isMeta hc)
    simpa [literal] using hfirst.trans htext

-- The characters of identifiers.
def nameSet : CharSet := .union (.union .none (.property .word)) (.only '$')

theorem leads_nameSet :
    Leads ⟨{}, frames, choices, parts, canRepeat, names⟩
      ('[' :: '\\' :: 'w' :: '$' :: ']' :: rest)
      ⟨{}, frames, choices, .set nameSet :: parts, true, names⟩ rest :=
  .step rfl rfl (by simp only [List.length_cons]; omega)

theorem leads_repetition {mark : Char} {counts : Counts} {q : Pattern}
    (hmark : ∀ s rest, step? s mark rest = repetition? s counts rest)
    (hrest : rest.head? ≠ some '?') :
    Leads ⟨{}, frames, choices, q :: parts, true, names⟩ (mark :: rest)
      ⟨{}, frames, choices, .times counts.least counts.most true q :: parts, true, names⟩ rest := by
  refine .step rfl ?_ (Nat.le_refl _)
  rw [hmark, repetition?, skip_default]
  split
  · simp at hrest
  · simp [State.repeatLast?]

theorem leads_bar :
    Leads ⟨{}, frames, choices, parts, canRepeat, names⟩ ('|' :: rest)
      ⟨{}, frames, sequence parts :: choices, [], false, names⟩ rest :=
  .step rfl rfl (Nat.le_refl _)

theorem leads_open (hrest : rest.head? ≠ some '?') :
    Leads ⟨{}, frames, choices, parts, canRepeat, names⟩ ('(' :: rest)
      ⟨{}, ⟨none, {}, choices, parts, canRepeat⟩ :: frames, [], [], false, names⟩ rest := by
  refine .step rfl ?_ (Nat.le_refl _)
  simp only [step?, group?, skip_default]
  split
  · simp at hrest
  · rfl

theorem leads_openBare :
    Leads ⟨{}, frames, choices, parts, canRepeat, names⟩ ('(' :: '?' :: ':' :: rest)
      ⟨{}, ⟨none, {}, choices, parts, canRepeat⟩ :: frames, [], [], false, names⟩ rest :=
  .step rfl rfl (by simp only [List.length_cons]; omega)

theorem leads_close {frame : Frame} (hframe : frame.flags = {}) :
    Leads ⟨{}, frame :: frames, choices, parts, canRepeat, names⟩ (')' :: rest)
      ⟨{}, frames, frame.choices, .group frame.name
        (State.whole ⟨{}, frame :: frames, choices, parts, canRepeat, names⟩) :: frame.parts, true,
        names⟩ rest := by
  refine .step rfl ?_ (Nat.le_refl _)
  simp [step?, State.closeGroup?, hframe]

-- A name for a group, as far as it is made of plain letters.
def IsGroupName (name : List Char) : Prop :=
  name ≠ [] ∧ ∀ c ∈ name, startsGroupName c = true ∧ c ≠ '>'

instance (name : List Char) : Decidable (IsGroupName name) := inferInstanceAs (Decidable (_ ∧ _))

theorem groupName?_append {s : State} {name : List Char} (hname : IsGroupName name)
    (hnew : String.ofList name ∉ s.names) (rest : List Char) :
    groupName? s (name ++ '>' :: rest) = some (String.ofList name, rest) := by
  have htake : (name ++ '>' :: rest).takeWhile (· != '>') = name := by
    rw [List.takeWhile_append_of_pos fun c hc => by simpa using (hname.2 c hc).2]
    simp
  cases name with
  | nil => exact absurd rfl hname.1
  | cons c cs =>
    have hcs : cs.all continuesGroupName = true := by
      rw [List.all_eq_true]
      intro d hd
      have hstart := (hname.2 d (by simp [hd])).1
      simp only [startsGroupName, Bool.or_eq_true] at hstart
      rcases hstart with hline | halpha
      · simp [continuesGroupName, hline]
      · simp [continuesGroupName, halpha]
    have hdrop : (c :: cs ++ '>' :: rest).drop (c :: cs).length = '>' :: rest := List.drop_left
    rw [groupName?, htake, hdrop]
    simp only [hcs, (hname.2 c (by simp)).1, hnew, Bool.and_true, List.contains_eq_mem,
      decide_false, Bool.not_false, if_true]

theorem leads_openNamed {name : List Char} (hname : IsGroupName name)
    (hnew : String.ofList name ∉ names) :
    Leads ⟨{}, frames, choices, parts, canRepeat, names⟩
      ('(' :: '?' :: 'P' :: '<' :: (name ++ '>' :: rest))
      ⟨{}, ⟨some (String.ofList name), {}, choices, parts, canRepeat⟩ :: frames, [], [], false,
        String.ofList name :: names⟩ rest := by
  refine .step rfl ?_ (by simp only [List.length_append, List.length_cons]; omega)
  simp [step?, group?, markedGroup?, openNamed?, skip_default, groupName?_append hname, hnew,
    State.openGroup]

end Tokens

section Alternation

-- Words between bars.
def bars (words : List (List Char)) : List Char := ['|'].intercalate words

theorem bars_cons_cons (w v : List Char) (words : List (List Char)) :
    bars (w :: v :: words) = w ++ '|' :: bars (v :: words) := by
  simp [bars]

theorem whole_words (frames : List Frame) (done : List (List Char)) (w : List Char)
    (canRepeat : Bool) (names : List String) :
    State.whole ⟨{}, frames, (done.map wordPattern).reverse, (literal w).reverse, canRepeat,
      names⟩ = wordsPattern (done ++ [w]) := by
  cases done using List.reverseRecOn with
  | nil => rfl
  | append_singleton done v =>
    cases done with
    | nil => rfl
    | cons u done => simp [State.whole, wordsPattern, wordPattern]

variable {frames : List Frame} {frame : Frame} {names : List String} {rest : List Char}
  {words : List (List Char)}

-- The words of a group, some of which have been read.
theorem leads_bars (done : List (List Char)) {canRepeat : Bool} (hframe : frame.flags = {})
    (hne : words ≠ []) (hplain : ∀ w ∈ words, ∀ c ∈ w, IsPlain c) :
    Leads ⟨{}, frame :: frames, (done.map wordPattern).reverse, [], canRepeat, names⟩
      (bars words ++ ')' :: rest)
      ⟨{}, frames, frame.choices, .group frame.name (wordsPattern (done ++ words)) :: frame.parts,
        true, names⟩ rest := by
  induction words generalizing done canRepeat with
  | nil => exact absurd rfl hne
  | cons w words ih =>
    have hw := hplain w (by simp)
    cases words with
    | nil =>
      have hbars : bars [w] = w := by simp [bars, List.intercalate]
      rw [hbars]
      refine (leads_word hw).trans ?_
      rw [List.append_nil, ← whole_words]
      exact leads_close hframe
    | cons v words =>
      rw [bars_cons_cons, List.append_assoc, List.cons_append]
      refine (leads_word hw).trans (leads_bar.trans ?_)
      have hmore : Leads ⟨{}, frame :: frames, ((done ++ [w]).map wordPattern).reverse, [], false,
          names⟩ (bars (v :: words) ++ ')' :: rest) ⟨{}, frames, frame.choices, .group frame.name
            (wordsPattern ((done ++ [w]) ++ v :: words)) :: frame.parts, true, names⟩ rest :=
        ih (done ++ [w]) (by simp) fun u hu => hplain u (by simp [hu])
      simpa [wordPattern] using hmore

-- A pattern that lists words: plainly, in a group, or in a group that keeps nothing.
inductive Alternation (words : List (List Char)) : List Char → Prop
  | plain : Alternation words (bars words)
  | grouped : Alternation words ('(' :: bars words ++ [')'])
  | bare : Alternation words ("(?:".toList ++ bars words ++ [')'])

theorem head?_bars_ne (hplain : ∀ w ∈ words, ∀ c ∈ w, IsPlain c) (rest : List Char) :
    (bars words ++ ')' :: rest).head? ≠ some '?' := by
  have hmem : '?' ∉ bars words := by
    intro hmem
    rcases Text.mem_intercalate hmem with hbar | ⟨w, hw, hc⟩
    · exact absurd hbar (by decide)
    · exact absurd (hplain w hw _ hc) (by decide)
  cases hbars : bars words with
  | nil => simp
  | cons c _ =>
    rw [hbars] at hmem
    simp only [List.cons_append, List.head?_cons, ne_eq, Option.some.injEq]
    rintro rfl
    simp at hmem

-- What a list of words is read as, inside a group around it.
theorem Alternation.exists_inner {text : List Char} (h : Alternation words text) (hne : words ≠ [])
    (hplain : ∀ w ∈ words, ∀ c ∈ w, IsPlain c) :
    ∃ inner, (inner = wordsPattern words ∨ inner = .group none (wordsPattern words)) ∧
      ∀ {frames : List Frame} {frame : Frame} {canRepeat : Bool} {names : List String}
        {rest : List Char}, frame.flags = {} → frame.choices = [] →
        Leads ⟨{}, frame :: frames, [], [], canRepeat, names⟩ (text ++ ')' :: rest)
          ⟨{}, frames, [], .group frame.name inner :: frame.parts, true, names⟩ rest := by
  cases h with
  | plain =>
    refine ⟨_, .inl rfl, ?_⟩
    rintro frames ⟨name, -, -, parts, canRepeat⟩ canRepeat' names rest rfl rfl
    exact leads_bars [] rfl hne hplain
  | grouped =>
    refine ⟨_, .inr rfl, ?_⟩
    rintro frames ⟨name, -, -, parts, canRepeat⟩ canRepeat' names rest rfl rfl
    rw [List.cons_append, List.cons_append, List.append_assoc]
    refine (leads_open (head?_bars_ne hplain _)).trans ((leads_bars [] rfl hne hplain).trans ?_)
    exact leads_close rfl
  | bare =>
    refine ⟨_, .inr rfl, ?_⟩
    rintro frames ⟨name, -, -, parts, canRepeat⟩ canRepeat' names rest rfl rfl
    rw [List.append_assoc, List.append_assoc]
    refine leads_openBare.trans ((leads_bars [] rfl hne hplain).trans ?_)
    exact leads_close rfl

theorem depthAll_append (parts parts' : List Pattern) :
    depthAll (parts ++ parts') = max (depthAll parts) (depthAll parts') := by
  induction parts with
  | nil => simp [depthAll]
  | cons p parts ih => simp [depthAll, ih, Nat.max_assoc]

theorem depthAll_literal (w : List Char) : depthAll (literal w) = 0 := by
  induction w with
  | nil => simp [literal, depthAll]
  | cons c w ih =>
    rw [literal] at ih
    simp [literal, depthAll, depth, ih]

theorem depth_wordPattern_le (w : List Char) : depth (wordPattern w) ≤ 1 := by
  match w with
  | [] => simp [wordPattern, literal, sequence, depth, depthAll]
  | [c] => simp [wordPattern, literal, sequence, depth]
  | c :: d :: w =>
    rw [wordPattern, sequence_of_two_le (by simp [literal]), List.reverse_reverse, depth,
      depthAll_literal]

theorem depthAll_words_le (words : List (List Char)) : depthAll (words.map wordPattern) ≤ 1 := by
  induction words with
  | nil => simp [depthAll]
  | cons w words ih =>
    have hw := depth_wordPattern_le w
    simp only [List.map_cons, depthAll]
    omega

theorem depth_wordsPattern_le (words : List (List Char)) : depth (wordsPattern words) ≤ 2 := by
  have hwords := depthAll_words_le words
  match words with
  | [] => simp [wordsPattern, depth, depthAll]
  | [w] => exact (depth_wordPattern_le w).trans (by decide)
  | w :: v :: words =>
    simp only [wordsPattern, depth]
    omega

theorem takes_alternation {α : Type} {mark : Char} {rest : Rest α} (hrest : GoesOnAt mark rest)
    (hwords : ∀ w ∈ words, mark ∉ w) {inner : Pattern}
    (hinner : inner = wordsPattern words ∨ inner = .group none (wordsPattern words)) :
    Takes (run inner) (· ∈ words) rest := by
  have hwordsPattern := takes_wordsPattern hrest hwords
  rcases hinner with rfl | rfl
  · exact hwordsPattern
  · exact takes_group hwordsPattern

end Alternation

end Treeshake.Pattern.Reader
