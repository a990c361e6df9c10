import Treeshake.Proofs.Pattern.Reading

namespace Treeshake.Pattern.Reader

-- A reader of parts that ends where they end, whatever follows.
def Keeps {β : Type} (read : List Char → Option (β × List Char)) (more : List Char) : Prop :=
  ∀ text value rest, read text = some (value, rest) →
    read (text ++ more) = some (value, rest ++ more)

section Combined

variable {β γ : Type} {read : List Char → Option (β × List Char)} {more : List Char}

theorem keeps_some (value : β) : Keeps (fun text => some (value, text)) more := by
  intro text value' rest h
  obtain ⟨rfl, rfl⟩ := Prod.mk.inj (Option.some.inj h)
  rfl

theorem keeps_none : Keeps (fun _ => (none : Option (β × List Char))) more := by
  intro text value rest h
  cases h

theorem Keeps.ite {read' : List Char → Option (β × List Char)} {q : Prop} [Decidable q]
    (hread : Keeps read more) (hread' : Keeps read' more) :
    Keeps (fun text => if q then read text else read' text) more := by
  by_cases hq : q
  · simpa only [hq, if_true] using hread
  · simpa only [hq, if_false] using hread'

theorem Keeps.bind {next : β × List Char → Option (γ × List Char)} (hread : Keeps read more)
    (hnext : ∀ value, Keeps (fun text => next (value, text)) more) :
    Keeps (fun text => (read text).bind next) more := by
  intro text value rest h
  obtain ⟨⟨value', rest'⟩, hfirst, hthen⟩ := Option.bind_eq_some_iff.mp h
  simp only [hread _ _ _ hfirst, Option.bind_some]
  exact hnext value' _ _ _ hthen

end Combined

section Spans

variable {p : Char → Bool} {text rest : List Char} {c : Char} (more : List Char)

-- A stretch that ends inside of a text.
theorem takeWhile_append_of_dropWhile (h : text.dropWhile p = c :: rest) :
    (text ++ more).takeWhile p = text.takeWhile p := by
  have hne : (text.takeWhile p).length ≠ text.length := by
    intro hlen
    have hsplit := congrArg List.length (List.takeWhile_append_dropWhile (p := p) (l := text))
    rw [List.length_append, h, List.length_cons] at hsplit
    omega
  rw [List.takeWhile_append, if_neg hne]

theorem dropWhile_append_of_dropWhile (h : text.dropWhile p = c :: rest) :
    (text ++ more).dropWhile p = c :: rest ++ more := by
  rw [List.dropWhile_append, h]
  rfl

theorem drop_takeWhile_append (h : text.drop (text.takeWhile p).length = c :: rest) :
    (text ++ more).takeWhile p = text.takeWhile p ∧
      (text ++ more).drop (text.takeWhile p).length = c :: rest ++ more := by
  rw [Text.drop_length_takeWhile] at h
  have htake := takeWhile_append_of_dropWhile more h
  refine ⟨htake, ?_⟩
  rw [← htake, Text.drop_length_takeWhile, dropWhile_append_of_dropWhile more h]

end Spans

section Blanks

-- Text behind a pattern that closes the group around it, without a line break or a colon.
def Closes (more : List Char) : Prop := ∃ tail, more = ')' :: tail ∧ '\n' ∉ more ∧ ':' ∉ more

variable {more : List Char}

theorem skipBlanks_plain (inComment : Bool) (text : List Char) :
    skipBlanks false inComment text = text := by
  cases text <;> simp [skipBlanks]

theorem skipBlanks_comment {text : List Char} (h : '\n' ∉ text) :
    skipBlanks true true text = [] := by
  induction text with
  | nil => simp [skipBlanks]
  | cons c text ih =>
    have hc : (c != '\n') = true := bne_iff_ne.mpr fun hc => h (by simp [hc])
    simp only [skipBlanks, Bool.not_true, Bool.false_eq_true, if_false, if_true, hc]
    exact ih fun hmem => h (by simp [hmem])

-- What is passed over in front of a text is passed over in front of a longer one. Only a comment at
-- the end takes more.
theorem skipBlanks_append (hmore : Closes more) (verbose inComment : Bool) (text : List Char) :
    skipBlanks verbose inComment (text ++ more) = skipBlanks verbose inComment text ++ more ∨
      skipBlanks verbose inComment text = [] ∧
        skipBlanks verbose inComment (text ++ more) = [] := by
  cases verbose with
  | false => exact .inl (by simp only [skipBlanks_plain])
  | true =>
    induction text generalizing inComment with
    | nil =>
      cases inComment with
      | false =>
        obtain ⟨tail, rfl, -⟩ := hmore
        refine .inl ?_
        simp [skipBlanks, show Unicode.isBlank ')' = false by decide]
      | true =>
        obtain ⟨tail, -, hline, -⟩ := hmore
        exact .inr ⟨by simp [skipBlanks], skipBlanks_comment hline⟩
    | cons c text ih =>
      simp only [List.cons_append, skipBlanks, Bool.not_true, Bool.false_eq_true, if_false]
      split
      · exact ih _
      · split
        · exact ih _
        · split
          · exact ih _
          · exact .inl rfl

theorem skip_append (hmore : Closes more) (f : Flags) (text : List Char) :
    f.skip (text ++ more) = f.skip text ++ more ∨ f.skip text = [] ∧ f.skip (text ++ more) = [] :=
  skipBlanks_append hmore f.verbose false text

theorem skip_append_of_cons (hmore : Closes more) {f : Flags} {text rest : List Char} {c : Char}
    (h : f.skip text = c :: rest) : f.skip (text ++ more) = c :: rest ++ more := by
  rcases skip_append hmore f text with hskip | ⟨hnil, -⟩
  · rw [hskip, h]
  · simp [hnil] at h

end Blanks

section Escapes

variable {more : List Char}

theorem keeps_codePoint? (length : Nat) (hlength : length ≠ 0) :
    Keeps (codePoint? length) more := by
  intro text c rest h
  unfold codePoint? at h
  split at h
  · next body =>
    simp only at h
    split at h
    · next tail hdrop =>
      obtain ⟨htake, hdrop'⟩ := drop_takeWhile_append more hdrop
      simp only [codePoint?, List.cons_append, htake, hdrop']
      split at h
      · cases h
      · next hne =>
        obtain ⟨d, hd, heq⟩ := Option.map_eq_some_iff.mp h
        obtain ⟨rfl, rfl⟩ := Prod.mk.inj heq
        simp [hne, hd]
    · cases h
  · next hbrace =>
    simp only at h
    split at h
    · next hdigits =>
      obtain ⟨d, hd, heq⟩ := Option.map_eq_some_iff.mp h
      obtain ⟨rfl, rfl⟩ := Prod.mk.inj heq
      have hlen : length ≤ text.length := by
        have hfirst := (Bool.and_eq_true _ _ ▸ hdigits).1
        simp only [List.length_take, beq_iff_eq] at hfirst
        omega
      have htake : (text ++ more).take length = text.take length :=
        List.take_append_of_le_length hlen
      have hdrop : (text ++ more).drop length = text.drop length ++ more :=
        List.drop_append_of_le_length hlen
      cases text with
      | nil => exact absurd (Nat.le_zero.mp hlen) hlength
      | cons e text =>
        unfold codePoint?
        split
        · next body hbody =>
          obtain ⟨rfl, -⟩ := List.cons.inj hbody
          exact absurd rfl (hbrace text)
        · simp only [htake, hdrop, hdigits, hd, if_true, Option.map_some]
    · cases h

theorem keeps_braced? : Keeps braced? more := by
  intro text inside rest h
  unfold braced? at h
  simp only at h
  split at h
  · next c tail hdrop =>
    obtain ⟨rfl, rfl⟩ := Prod.mk.inj (Option.some.inj h)
    obtain ⟨htake, hdrop'⟩ := drop_takeWhile_append more hdrop
    rw [braced?]
    simp only [htake, hdrop', List.cons_append]
  · cases h

-- A property, and whether it is negated, as it stands behind its letter.
theorem keeps_property? (f : Flags) (negated : Bool) : Keeps (property? f negated) more := by
  have hbraced : Keeps (fun text => (braced? text).bind fun x =>
      (propertyText? x.1).bind fun p => some (p, x.2)) more := by
    refine keeps_braced?.bind fun name => ?_
    cases hname : propertyText? name with
    | none => simpa only [hname, Option.bind_none] using keeps_none
    | some p => simpa only [hname, Option.bind_some] using keeps_some p
  refine keeps_none.ite (Keeps.bind (fun text p rest h => ?_) fun value => keeps_some _)
  cases text with
  | nil => cases h
  | cons c text =>
    simp only [List.cons_append] at h ⊢
    split at h
    · next inside heq =>
      obtain ⟨rfl, rfl⟩ := List.cons.inj heq
      exact hbraced _ _ _ h
    · next d rest' hbrace heq =>
      obtain ⟨rfl, rfl⟩ := List.cons.inj heq
      split
      · next inside heq => exact absurd (List.cons.inj heq).1 hbrace
      · next heq =>
        obtain ⟨rfl, rfl⟩ := List.cons.inj heq
        obtain ⟨q, hq, heq⟩ := Option.map_eq_some_iff.mp h
        obtain ⟨rfl, rfl⟩ := Prod.mk.inj heq
        rw [hq]
        rfl
      · next heq => cases heq
    · cases h

theorem keeps_wordEdge? (hmore : Closes more) (f : Flags) : Keeps (wordEdge? f) more := by
  intro text l rest h
  unfold wordEdge? at h ⊢
  cases text with
  | nil =>
    obtain ⟨tail, rfl, -⟩ := hmore
    obtain ⟨rfl, rfl⟩ := Prod.mk.inj (Option.some.inj h)
    rfl
  | cons c text =>
    simp only [List.cons_append] at h ⊢
    split at h
    · next inside heq =>
      obtain ⟨rfl, rfl⟩ := List.cons.inj heq
      simp only
      split at h
      · next d hhead =>
        cases hskip : f.skip text with
        | nil => simp [hskip] at hhead
        | cons d' tail =>
          obtain rfl : d' = d := by simpa [hskip] using hhead
          simp only [skip_append_of_cons hmore hskip, List.cons_append, List.head?_cons]
          split at h
          · next hc =>
            obtain ⟨⟨name, rest''⟩, hbraced, hname⟩ := Option.bind_eq_some_iff.mp h
            obtain ⟨q, hq, heq⟩ := Option.bind_eq_some_iff.mp hname
            obtain ⟨rfl, rfl⟩ := Prod.mk.inj (Option.some.inj heq)
            simp [hc, keeps_braced? _ _ _ hbraced, hq]
          · next hc =>
            obtain ⟨rfl, rfl⟩ := Prod.mk.inj (Option.some.inj h)
            simp [hc]
      · cases h
    · next hbrace =>
      obtain ⟨rfl, rfl⟩ := Prod.mk.inj (Option.some.inj h)
      split
      · next inside heq =>
        obtain ⟨rfl, rfl⟩ := List.cons.inj heq
        exact absurd rfl (hbrace text)
      · rfl

theorem keeps_escape? (hmore : Closes more) (f : Flags) : Keeps (escape? f) more := by
  intro text e rest h
  cases text with
  | nil => cases h
  | cons c text =>
    have hplain {e' : Escape} (h : some (e', text) = some (e, rest)) :
        some (e', text ++ more) = some (e, rest ++ more) := keeps_some e' _ _ _ h
    simp only [escape?, List.cons_append, Option.bind_eq_bind, Option.pure_def] at h ⊢
    split at h
    case h_1 =>
      have hchar (c : Char) : Keeps (fun text => if !f.unicode && decide (0x80 ≤ c.toNat) then none
          else some (Escape.char c, text)) more := keeps_none.ite (keeps_some _)
      exact (keeps_codePoint? 2 (by decide)).bind hchar _ _ _ h
    case h_2 =>
      exact (keeps_codePoint? 4 (by decide)).bind (fun c => keeps_some (Escape.char c)) _ _ _ h
    case h_3 =>
      exact (keeps_codePoint? 8 (by decide)).bind (fun c => keeps_some (Escape.char c)) _ _ _ h
    case h_4 => exact (keeps_property? f false).bind (fun s => keeps_some (Escape.set s)) _ _ _ h
    case h_5 => exact (keeps_property? f true).bind (fun s => keeps_some (Escape.set s)) _ _ _ h
    case h_14 => exact (keeps_wordEdge? hmore f).bind (fun l => keeps_some (Escape.look l)) _ _ _ h
    case h_15 => exact Keeps.ite (keeps_some _) keeps_none _ _ _ h
    case h_18 =>
      cases hset : letterSet? f c with
      | some s =>
        simp only [hset] at h ⊢
        exact Keeps.ite (Keeps.ite (keeps_some _) keeps_none) (keeps_some _) _ _ _ h
      | none =>
        simp only [hset] at h ⊢
        exact Keeps.ite (keeps_some _) keeps_none _ _ _ h
    all_goals exact hplain h

end Escapes

section Classes

variable {more : List Char} {f : Flags}

-- What a text followed by a closing parenthesis starts with, it starts with alone.
theorem Closes.eq_cons (hmore : Closes more) {text rest : List Char} {c : Char} (hc : c ≠ ')')
    (h : text ++ more = c :: rest) : ∃ rest', text = c :: rest' ∧ rest = rest' ++ more := by
  obtain ⟨tail, rfl, -⟩ := hmore
  cases text with
  | nil => exact absurd (List.cons.inj h).1.symm hc
  | cons d text =>
    obtain ⟨rfl, rfl⟩ := List.cons.inj h
    exact ⟨text, rfl, rfl⟩

-- A sign that the text does not start with is none that the longer text starts with, and likewise
-- for a doubled sign.
theorem append_ne_of_first {text : List Char} {c d : Char}
    (h : ∀ rest, c :: text = d :: rest → False) (rest : List Char) : c :: text ++ more ≠ d :: rest :=
  fun heq => h text ((List.cons.inj heq).1 ▸ rfl)

theorem Closes.append_ne_of_double (hmore : Closes more) {text : List Char} {c d : Char}
    (hparen : d ≠ ')') (h : ∀ rest, c :: text = d :: d :: rest → False) (rest : List Char) :
    c :: text ++ more ≠ d :: d :: rest := by
  intro heq
  obtain ⟨rfl, hbehind⟩ := List.cons.inj heq
  obtain ⟨rest', rfl, -⟩ := hmore.eq_cons hparen hbehind
  exact h rest' rfl

theorem length_skipBlanks_le (verbose inComment : Bool) (text : List Char) :
    (skipBlanks verbose inComment text).length ≤ text.length := by
  induction text generalizing inComment with
  | nil => simp [skipBlanks]
  | cons c text ih =>
    have hih (inComment : Bool) : (skipBlanks verbose inComment text).length ≤ (c :: text).length :=
      (ih inComment).trans (Nat.le_succ _)
    simp only [skipBlanks]
    split
    · exact Nat.le_refl _
    · split
      · exact hih _
      · split
        · exact hih _
        · split
          · exact hih _
          · exact Nat.le_refl _

theorem length_skip_le (f : Flags) (text : List Char) : (f.skip text).length ≤ text.length :=
  length_skipBlanks_le f.verbose false text

-- No colon follows, so what is no named class does not become one.
theorem namedFrom?_append (hmore : Closes more) (f : Flags) (negated : Bool) (text : List Char) :
    namedFrom? f negated (text ++ more) =
      (namedFrom? f negated text).map fun x => (x.1, x.2 ++ more) := by
  obtain ⟨tail, hclose, -, hcolon⟩ := hmore
  unfold namedFrom?
  simp only
  cases hdrop : text.drop (text.takeWhile (· != ':')).length with
  | nil =>
    rw [Text.drop_length_takeWhile, List.dropWhile_eq_nil_iff] at hdrop
    have hnil : (text ++ more).drop ((text ++ more).takeWhile (· != ':')).length = [] := by
      rw [Text.drop_length_takeWhile, List.dropWhile_eq_nil_iff]
      intro c hc
      rcases List.mem_append.mp hc with hc | hc
      · exact hdrop c hc
      · exact bne_iff_ne.mpr fun heq => hcolon (heq ▸ hc)
    rw [hnil]
    rfl
  | cons c rest =>
    obtain ⟨htake, hdrop'⟩ := drop_takeWhile_append more hdrop
    rw [htake, hdrop']
    cases rest with
    | nil =>
      subst hclose
      simp
    | cons d rest =>
      by_cases hc : c = ':'
      · by_cases hd : d = ']'
        · subst hc hd
          simp [Function.comp_def]
        · simp [hd]
      · simp [hc]

theorem namedClass?_append (hmore : Closes more) (f : Flags) (text : List Char) :
    namedClass? f (text ++ more) =
      (namedClass? f text).map fun x => (x.1, x.2 ++ more) := by
  unfold namedClass?
  split
  · next heq =>
    obtain ⟨rest, rfl, rfl⟩ := hmore.eq_cons (by decide) heq
    exact namedFrom?_append hmore f true rest
  · next hcaret =>
    split
    · next rest => exact absurd rfl (hcaret (rest ++ more))
    · exact namedFrom?_append hmore f false text

theorem plainHyphens_append (hmore : Closes more) {fuel fuel' : Nat} {text rest : List Char}
    {hyphen : Bool} {c : Char} (hfuel : text.length ≤ fuel) (hfuel' : text.length ≤ fuel')
    (h : plainHyphens f fuel text = (hyphen, c :: rest)) :
    plainHyphens f fuel' (text ++ more) = (hyphen, c :: rest ++ more) := by
  induction fuel generalizing fuel' text hyphen with
  | zero =>
    obtain rfl := List.eq_nil_of_length_eq_zero (Nat.le_zero.mp hfuel)
    simp [plainHyphens] at h
  | succ fuel ih =>
    unfold plainHyphens at h
    split at h
    · next fuel'' rest' heq =>
      obtain rfl := Nat.succ.inj heq
      obtain ⟨rfl, hrest⟩ := Prod.mk.inj h
      rw [List.length_cons] at hfuel hfuel'
      obtain ⟨fuel', rfl⟩ := Nat.exists_eq_add_of_le' (Nat.le_of_add_left_le hfuel')
      have hle := length_skip_le f rest'
      have hpassed : plainHyphens f fuel' (f.skip rest' ++ more) =
          ((plainHyphens f fuel (f.skip rest')).1, c :: rest ++ more) :=
        ih (by omega) (by omega) (Prod.ext rfl hrest)
      have hskip : f.skip (rest' ++ more) = f.skip rest' ++ more := by
        rcases skip_append hmore f rest' with hskip | ⟨hnil, -⟩
        · exact hskip
        · rw [hnil] at hrest
          cases fuel <;> simp [plainHyphens] at hrest
      simp only [List.cons_append, plainHyphens, hskip, hpassed]
    · next hhyphen =>
      obtain ⟨rfl, rfl⟩ := Prod.mk.inj h
      unfold plainHyphens
      split
      · next fuel'' rest' heq =>
        obtain ⟨rfl, -⟩ := List.cons.inj heq
        exact absurd rfl (hhyphen fuel rest rfl)
      · rfl

theorem bracketFrom_append (hmore : Closes more) {negated : Bool} {text rest : List Char}
    {b : Bracket} {c : Char} (h : bracketFrom f negated text = (b, c :: rest)) :
    bracketFrom f negated (text ++ more) = (b, c :: rest ++ more) := by
  unfold bracketFrom at h ⊢
  simp only at h ⊢
  have hfuel : text.length ≤ (text ++ more).length := by simp
  cases hpassed : (plainHyphens f text.length text).2 with
  | nil =>
    rw [hpassed] at h
    split at h <;> simp at h
  | cons d rest' =>
    rw [plainHyphens_append hmore (Nat.le_refl _) hfuel (Prod.ext rfl hpassed)]
    rw [hpassed] at h
    cases hhyphen : (plainHyphens f text.length text).1 with
    | true => simpa [hhyphen] using h
    | false =>
      simp only [hhyphen, Bool.false_eq_true, if_false] at h ⊢
      by_cases hd : d = ']'
      · subst hd
        obtain ⟨rfl, hskip⟩ := Prod.mk.inj h
        simp [skip_append_of_cons hmore hskip]
      · simpa [hd] using h

theorem openBracket_append (hmore : Closes more) {text rest : List Char} {b : Bracket} {c : Char}
    (h : openBracket f text = (b, c :: rest)) :
    openBracket f (text ++ more) = (b, c :: rest ++ more) := by
  unfold openBracket at h ⊢
  cases hskip : f.skip text with
  | nil => simp [hskip, bracketFrom, plainHyphens] at h
  | cons d text' =>
    rw [hskip] at h
    rw [skip_append_of_cons hmore hskip]
    by_cases hd : d = '^'
    · subst hd
      cases hbehind : f.skip text' with
      | nil => simp [hbehind, bracketFrom, plainHyphens] at h
      | cons e text'' =>
        simp only [hbehind] at h
        simp only [List.cons_append, skip_append_of_cons hmore hbehind]
        exact bracketFrom_append hmore h
    · simp only [List.cons_append] at h ⊢
      split at h
      · next heq => exact absurd (List.cons.inj heq).1 hd
      · split
        · next heq => exact absurd (List.cons.inj heq).1 hd
        · exact bracketFrom_append hmore h

theorem member?_char {c : Char} (hc : c ≠ '\\') (f : Flags) (text : List Char) :
    member? f (c :: text) = some (.char c, text) := by
  unfold member?
  split
  · next heq => exact absurd (List.cons.inj heq).1 hc
  · next heq =>
    obtain ⟨rfl, rfl⟩ := List.cons.inj heq
    rfl
  · next heq => cases heq

theorem keeps_member? (hmore : Closes more) (f : Flags) : Keeps (member? f) more := by
  intro text e rest h
  cases text with
  | nil => cases h
  | cons c text =>
    by_cases hc : c = '\\'
    · subst hc
      exact keeps_escape? hmore f _ _ _ h
    · rw [member?_char hc] at h
      rw [List.cons_append, member?_char hc]
      exact keeps_some _ _ _ _ h

-- The second member of a range, of which something follows in the class.
theorem memberRange_append (hmore : Closes more) (first : Escape) {text rest : List Char} {s : CharSet}
    {c : Char} (h : ((member? f text).bind fun (second, rest) =>
      (range? f first second).map fun s => (s, f.skip rest)) = some (s, c :: rest)) :
    ((member? f (text ++ more)).bind fun (second, rest) =>
      (range? f first second).map fun s => (s, f.skip rest)) = some (s, c :: rest ++ more) := by
  obtain ⟨⟨second, rest'⟩, hsecond, hrange⟩ := Option.bind_eq_some_iff.mp h
  obtain ⟨s', hs, heq⟩ := Option.map_eq_some_iff.mp hrange
  obtain ⟨rfl, hrest⟩ := Prod.mk.inj heq
  simp only [keeps_member? hmore f _ _ _ hsecond, Option.bind_some, hs,
    skip_append_of_cons hmore hrest, Option.map_some]

-- A member that something follows in the class.
theorem rangeOrMember?_append (hmore : Closes more) {text rest : List Char} {s : CharSet} {c : Char}
    (h : rangeOrMember? f text = some (s, c :: rest)) :
    rangeOrMember? f (text ++ more) = some (s, c :: rest ++ more) := by
  unfold rangeOrMember? at h ⊢
  simp only [Option.bind_eq_bind] at h ⊢
  obtain ⟨⟨first, rest'⟩, hfirst, hbehind⟩ := Option.bind_eq_some_iff.mp h
  have hhead : (text ++ more).head? = text.head? := by
    cases text with
    | nil => cases hfirst
    | cons d text => rfl
  have hsingle {rest'' : List Char}
      (hchars : (first.chars? f).map (fun s => (s, rest'')) = some (s, c :: rest)) :
      (first.chars? f).map (fun s => (s, rest'' ++ more)) = some (s, c :: rest ++ more) := by
    obtain ⟨s', hs, heq⟩ := Option.map_eq_some_iff.mp hchars
    obtain ⟨rfl, rfl⟩ := Prod.mk.inj heq
    rw [hs]
    rfl
  clear h
  simp only [keeps_member? hmore f _ _ _ hfirst, Option.bind_some, hhead] at hbehind ⊢
  split at hbehind
  · cases hbehind
  · next hascii =>
    rw [if_neg hascii]
    cases hskip : f.skip rest' with
    | nil => simp [hskip] at hbehind
    | cons d after =>
      rw [skip_append_of_cons hmore hskip]
      simp only [hskip, List.cons_append] at hbehind ⊢
      by_cases hd : d = '-'
      · subst hd
        simp only at hbehind ⊢
        cases hafter : f.skip after with
        | nil => simp [hafter] at hbehind
        | cons next after' =>
          simp only [hafter, skip_append_of_cons hmore hafter, List.cons_append] at hbehind ⊢
          split at hbehind
          · next hplain =>
            rw [if_pos hplain]
            exact hsingle hbehind
          · next hplain =>
            rw [if_neg hplain]
            split at hbehind
            · cases hbehind
            · next hascii =>
              rw [if_neg hascii]
              exact memberRange_append hmore first hbehind
      · split at hbehind
        · next heq => exact absurd (List.cons.inj heq).1 hd
        · split
          · next heq => exact absurd (List.cons.inj heq).1 hd
          · exact hsingle hbehind

theorem classFrom?_nil (f : Flags) (fuel : Nat) (stack : List Bracket) :
    classFrom? f fuel stack [] = none := by
  cases fuel <;> cases stack <;> simp [classFrom?, Flags.skip, skipBlanks]

-- What the next piece of a class does to the brackets that are open.
inductive ClassPiece where
  | add (s : CharSet)
  | opening (b : Bracket)
  | closing
  | operator (o : Operator)

-- The next piece of a class and the text behind it.
def classPiece? (f : Flags) (text : List Char) : Option (ClassPiece × List Char) :=
  match text with
  | [] => none
  | '[' :: ':' :: rest =>
    match namedClass? f rest with
    | some (s, rest) => some (.add s, rest)
    | none => some (.opening (openBracket f (':' :: rest)).1, (openBracket f (':' :: rest)).2)
  | '[' :: rest => some (.opening (openBracket f rest).1, (openBracket f rest).2)
  | ']' :: rest => some (.closing, rest)
  | '&' :: '&' :: rest => some (.operator .inter, rest)
  | '-' :: '-' :: rest => some (.operator .diff, rest)
  | '~' :: '~' :: rest => some (.operator .either, rest)
  | text => (rangeOrMember? f text).map fun (s, rest) => (.add s, rest)

theorem classFrom?_eq (f : Flags) (fuel : Nat) (b : Bracket) (outer : List Bracket)
    (text : List Char) : classFrom? f (fuel + 1) (b :: outer) text =
      (classPiece? f (f.skip text)).bind fun (piece, rest) =>
        match piece, outer with
        | .add s, outer => classFrom? f fuel (b.add s :: outer) rest
        | .opening inner, outer => classFrom? f fuel (inner :: b :: outer) rest
        | .operator o, outer => classFrom? f fuel (b.operate o :: outer) rest
        | .closing, outer =>
          if b.negated && !f.unicode then none
          else
            match outer with
            | [] => some (b.close, rest)
            | o :: outer => classFrom? f fuel (o.add b.close :: outer) rest := by
  rw [classFrom?]
  generalize f.skip text = text
  split
  · rfl
  · next rest =>
    simp only [classPiece?]
    cases namedClass? f rest <;> rfl
  · next rest hcolon => rw [classPiece?.eq_3 f rest hcolon]; rfl
  · rfl
  · rfl
  · rfl
  · rfl
  · next hnil hnamed hopening hclosing hinter hdiff heither =>
    rw [classPiece?.eq_8 f text hnil hnamed hopening hclosing hinter hdiff heither]
    rw [Option.bind_map]
    rfl

-- A piece that something follows in the class, as something follows all but the closing bracket.
theorem classPiece?_append (hmore : Closes more) {text rest : List Char} {piece : ClassPiece}
    (h : classPiece? f text = some (piece, rest)) (hrest : piece = .closing ∨ rest ≠ []) :
    classPiece? f (text ++ more) = some (piece, rest ++ more) := by
  have hopen {inner : List Char}
      (h : some (ClassPiece.opening (openBracket f inner).1, (openBracket f inner).2) =
        some (piece, rest)) :
      some (ClassPiece.opening (openBracket f (inner ++ more)).1,
        (openBracket f (inner ++ more)).2) = some (piece, rest ++ more) := by
    obtain ⟨rfl, hbehind⟩ := Prod.mk.inj (Option.some.inj h)
    obtain ⟨c, rest', rfl⟩ := List.exists_cons_of_ne_nil (hrest.resolve_left (by nofun))
    rw [openBracket_append hmore (Prod.ext rfl hbehind)]
  unfold classPiece? at h
  split at h
  · cases h
  · next rest' =>
    simp only [List.cons_append, classPiece?, namedClass?_append hmore]
    cases hnamed : namedClass? f rest' with
    | none =>
      rw [hnamed] at h
      exact hopen h
    | some x =>
      rw [hnamed] at h
      exact keeps_some _ _ _ _ h
  · next rest' hcolon =>
    rw [List.cons_append, classPiece?.eq_3]
    · exact hopen h
    · intro rest'' heq
      obtain ⟨rest'', heq, -⟩ := hmore.eq_cons (by decide) heq
      exact hcolon rest'' heq
  · exact keeps_some _ _ _ _ h
  · exact keeps_some _ _ _ _ h
  · exact keeps_some _ _ _ _ h
  · exact keeps_some _ _ _ _ h
  · next hnil hnamed hopening hclosing hinter hdiff heither =>
    obtain ⟨⟨s, rest'⟩, hmember, heq⟩ := Option.map_eq_some_iff.mp h
    obtain ⟨rfl, rfl⟩ := Prod.mk.inj heq
    obtain ⟨d, rest', rfl⟩ := List.exists_cons_of_ne_nil (hrest.resolve_left (by nofun))
    obtain ⟨c, text, rfl⟩ := List.exists_cons_of_ne_nil hnil
    rw [classPiece?.eq_8, rangeOrMember?_append hmore hmember]
    · rfl
    · nofun
    · exact fun rest => append_ne_of_first hopening (':' :: rest)
    · exact append_ne_of_first hopening
    · exact append_ne_of_first hclosing
    · exact hmore.append_ne_of_double (by decide) hinter
    · exact hmore.append_ne_of_double (by decide) hdiff
    · exact hmore.append_ne_of_double (by decide) heither

theorem classFrom?_append (hmore : Closes more) {fuel fuel' : Nat} (hfuel : fuel ≤ fuel')
    {stack : List Bracket} {text rest : List Char} {s : CharSet}
    (h : classFrom? f fuel stack text = some (s, rest)) :
    classFrom? f fuel' stack (text ++ more) = some (s, rest ++ more) := by
  induction fuel generalizing fuel' stack text with
  | zero => simp [classFrom?] at h
  | succ fuel ih =>
    obtain ⟨fuel', rfl⟩ := Nat.exists_eq_add_of_le' (Nat.le_of_add_left_le hfuel)
    have hle : fuel ≤ fuel' := Nat.le_of_succ_le_succ hfuel
    cases stack with
    | nil => simp [classFrom?] at h
    | cons b outer =>
      rw [classFrom?_eq] at h ⊢
      obtain ⟨⟨piece, rest'⟩, hpiece, hgo⟩ := Option.bind_eq_some_iff.mp h
      have hrest : piece = .closing ∨ rest' ≠ [] := by
        rw [or_iff_not_imp_right, not_not]
        rintro rfl
        cases piece <;> simp [classFrom?_nil] at hgo ⊢
      cases hskip : f.skip text with
      | nil => simp [hskip, classPiece?] at hpiece
      | cons c behind =>
        rw [hskip] at hpiece
        rw [skip_append_of_cons hmore hskip, classPiece?_append hmore hpiece hrest, Option.bind_some]
        cases piece with
        | add s' => exact ih hle hgo
        | opening inner => exact ih hle hgo
        | operator o => exact ih hle hgo
        | closing =>
          simp only at hgo ⊢
          split at hgo
          · cases hgo
          · next hnegated =>
            rw [if_neg hnegated]
            cases outer with
            | nil => exact keeps_some _ _ _ _ hgo
            | cons o outer => exact ih hle hgo

theorem keeps_class? (hmore : Closes more) (f : Flags) : Keeps (class? f) more := by
  intro text s rest h
  unfold class? at h ⊢
  simp only at h ⊢
  cases hopen : (openBracket f text).2 with
  | nil => simp [hopen, classFrom?_nil] at h
  | cons c rest' =>
    have hopened := openBracket_append hmore (Prod.ext rfl hopen : openBracket f text = (_, c :: rest'))
    rw [hopened]
    rw [hopen] at h
    exact classFrom?_append hmore (by simp only [List.length_append]; omega) h

end Classes

section Counts

variable {more : List Char} {f : Flags}

theorem count?_append {text rest : List Char} {value : Option Nat} {c : Char}
    (h : count? text = (value, c :: rest)) : count? (text ++ more) = (value, c :: rest ++ more) := by
  unfold count? at h ⊢
  simp only at h ⊢
  cases hblank : text.dropWhile Unicode.isBlank with
  | nil => simp [hblank] at h
  | cons d text' =>
    rw [dropWhile_append_of_dropWhile more hblank]
    rw [hblank] at h
    cases hdigits : (d :: text').drop ((d :: text').takeWhile Char.isDigit).length with
    | nil => simp [hdigits] at h
    | cons e text'' =>
      obtain ⟨htake, hdrop⟩ := drop_takeWhile_append more hdigits
      obtain ⟨rfl, hrest⟩ := Prod.mk.inj h
      rw [hdigits] at hrest
      rw [htake, hdrop, dropWhile_append_of_dropWhile more hrest]

theorem count?_nil : count? [] = (none, []) := rfl

theorem keeps_counts? (hmore : Closes more) (f : Flags) : Keeps (counts? f) more := by
  intro text counts rest h
  unfold counts? at h ⊢
  simp only [Option.bind_eq_bind, Option.pure_def] at h ⊢
  cases hskip : f.skip text with
  | nil => simp [hskip, count?_nil] at h
  | cons c text' =>
    rw [skip_append_of_cons hmore hskip]
    rw [hskip] at h
    obtain ⟨least, hleast, hbehind⟩ := Option.bind_eq_some_iff.mp h
    clear h
    cases hfirst : (count? (c :: text')).2 with
    | nil => simp [hfirst] at hbehind
    | cons d rest' =>
      rw [count?_append (Prod.ext hleast hfirst)]
      simp only [hfirst, Option.bind_some, List.cons_append] at hbehind ⊢
      by_cases hclose : d = '\x7d'
      · subst hclose
        exact keeps_some _ _ _ _ hbehind
      · by_cases hcomma : d = ','
        · subst hcomma
          simp only at hbehind ⊢
          cases hskip' : f.skip rest' with
          | nil => simp [hskip', count?_nil] at hbehind
          | cons e rest'' =>
            rw [skip_append_of_cons hmore hskip']
            rw [hskip'] at hbehind
            by_cases he : e = '\x7d'
            · subst he
              exact keeps_some _ _ _ _ hbehind
            · split at hbehind
              · next heq => exact absurd (List.cons.inj heq).1 he
              · obtain ⟨most, hmost, hclosed⟩ := Option.bind_eq_some_iff.mp hbehind
                cases hsecond : (count? (e :: rest'')).2 with
                | nil => simp [hsecond] at hclosed
                | cons g rest₃ =>
                  split
                  · next heq => exact absurd (List.cons.inj heq).1 he
                  · rw [count?_append (Prod.ext hmost hsecond)]
                    simp only [hsecond, Option.bind_some, List.cons_append] at hclosed ⊢
                    by_cases hg : g = '\x7d'
                    · subst hg
                      exact (keeps_some _).ite keeps_none _ _ _ hclosed
                    · simp [hg] at hclosed
        · simp [hclose, hcomma] at hbehind

end Counts

-- The state of a reader inside of open groups.
def State.within (s : State) (frames : List Frame) (names : List String) : State :=
  { s with frames := s.frames ++ frames, names := s.names ++ names }

section Within

variable {more : List Char} {frames : List Frame} {names : List String} {s s' : State}

theorem repeatLast?_within (s : State) (counts : Counts) (lazily : Bool) :
    (s.within frames names).repeatLast? counts lazily =
      (s.repeatLast? counts lazily).map fun s => s.within frames names := by
  obtain ⟨flags, open', choices, parts, canRepeat, taken⟩ := s
  cases parts with
  | nil => rfl
  | cons p parts => cases canRepeat <;> rfl

-- What a reader does inside of open groups, when it does so much alone. A comment at the end takes
-- what closes the group.
def Simulates (more : List Char) (frames : List Frame) (names : List String)
    (alone inside : Option (State × List Char)) : Prop :=
  ∀ s rest, alone = some (s, rest) → ∀ s' rest', inside = some (s', rest') →
    s' = s.within frames names ∧ (rest' = rest ++ more ∨ rest = [] ∧ rest' = [])

theorem simulates_some (s : State) (rest : List Char) :
    Simulates more frames names (some (s, rest)) (some (s.within frames names, rest ++ more)) := by
  intro s₁ rest₁ h s₂ rest₂ h'
  obtain ⟨rfl, rfl⟩ := Prod.mk.inj (Option.some.inj h)
  obtain ⟨rfl, rfl⟩ := Prod.mk.inj (Option.some.inj h')
  exact ⟨rfl, .inl rfl⟩

theorem simulates_map (r : Option State) {rest rest' : List Char}
    (hrest : rest' = rest ++ more ∨ rest = [] ∧ rest' = []) :
    Simulates more frames names (r.map fun s => (s, rest))
      ((r.map fun s => s.within frames names).map fun s => (s, rest')) := by
  intro s₁ rest₁ h s₂ rest₂ h'
  cases r with
  | none => cases h
  | some s =>
    obtain ⟨rfl, rfl⟩ := Prod.mk.inj (Option.some.inj h)
    obtain ⟨rfl, rfl⟩ := Prod.mk.inj (Option.some.inj h')
    exact ⟨rfl, hrest⟩

theorem simulates_repetition? (hmore : Closes more) (s : State) (counts : Counts)
    (text : List Char) :
    Simulates more frames names (repetition? s counts text)
      (repetition? (s.within frames names) counts (text ++ more)) := by
  have hflags : (s.within frames names).flags = s.flags := rfl
  unfold repetition?
  rw [hflags]
  simp only [repeatLast?_within]
  by_cases hlazy : ∃ rest, s.flags.skip text = '?' :: rest
  · obtain ⟨rest, hskip⟩ := hlazy
    rw [skip_append_of_cons hmore hskip, hskip]
    exact simulates_map _ (.inl rfl)
  · have hgreedy : ∀ rest, s.flags.skip (text ++ more) ≠ '?' :: rest := by
      intro rest hskip
      rcases skip_append hmore s.flags text with hsame | ⟨-, hnil⟩
      · obtain ⟨rest', heq, -⟩ := hmore.eq_cons (by decide) (hsame ▸ hskip)
        exact hlazy ⟨rest', heq⟩
      · simp [hnil] at hskip
    split
    · next rest heq => exact absurd ⟨rest, heq⟩ hlazy
    · exact simulates_map _ (skip_append hmore s.flags text)

theorem flags?_append {f f' : Flags} {seen text rest : List Char} {off : Bool} {last c : Char}
    (h : flags? f seen off last text = some (f', c, rest)) :
    flags? f seen off last (text ++ more) = some (f', c, rest ++ more) := by
  induction text generalizing f seen off last with
  | nil => cases h
  | cons d text ih =>
    simp only [List.cons_append, flags?] at h ⊢
    split at h
    · next hend =>
      rw [if_pos hend]
      split at h
      · cases h
      · next hlast =>
        rw [if_neg hlast]
        obtain ⟨rfl, heq⟩ := Prod.mk.inj (Option.some.inj h)
        obtain ⟨rfl, rfl⟩ := Prod.mk.inj heq
        rfl
    · next hend =>
      rw [if_neg hend]
      split at h
      · next hhyphen =>
        rw [if_pos hhyphen]
        split at h
        · cases h
        · next hoff =>
          rw [if_neg hoff]
          exact ih h
      · next hhyphen =>
        rw [if_neg hhyphen]
        split at h
        · cases h
        · next hseen =>
          rw [if_neg hseen]
          split at h
          case h_8 => cases h
          all_goals exact ih h

-- A name that is new inside of the open groups is new alone.
theorem simulates_groupName? (s : State) {text rest rest' : List Char} {name name' : String}
    (h : groupName? s text = some (name, rest))
    (h' : groupName? (s.within frames names) (text ++ more) = some (name', rest')) :
    name' = name ∧ rest' = rest ++ more := by
  unfold groupName? at h h'
  simp only at h h'
  cases hdrop : text.drop (text.takeWhile (· != '>')).length with
  | nil => simp [hdrop] at h
  | cons c rest₀ =>
    obtain ⟨htake, hdrop'⟩ := drop_takeWhile_append more hdrop
    rw [htake, hdrop'] at h'
    rw [hdrop] at h
    cases hname : text.takeWhile (· != '>') with
    | nil => simp [hname] at h
    | cons d cs =>
      simp only [hname, List.cons_append] at h h'
      split at h
      · obtain ⟨rfl, rfl⟩ := Prod.mk.inj (Option.some.inj h)
        split at h'
        · obtain ⟨rfl, rfl⟩ := Prod.mk.inj (Option.some.inj h')
          exact ⟨rfl, rfl⟩
        · cases h'
      · cases h

theorem simulates_openNamed? (s : State) (text : List Char) :
    Simulates more frames names (openNamed? s text)
      (openNamed? (s.within frames names) (text ++ more)) := by
  intro s₁ rest₁ h s₂ rest₂ h'
  obtain ⟨⟨name, rest⟩, hname, heq⟩ := Option.bind_eq_some_iff.mp h
  obtain ⟨⟨name', rest'⟩, hname', heq'⟩ := Option.bind_eq_some_iff.mp h'
  obtain ⟨rfl, rfl⟩ := simulates_groupName? s hname hname'
  obtain ⟨rfl, rfl⟩ := Prod.mk.inj (Option.some.inj heq)
  obtain ⟨rfl, rfl⟩ := Prod.mk.inj (Option.some.inj heq')
  exact ⟨rfl, .inl rfl⟩

theorem simulates_none (inside : Option (State × List Char)) :
    Simulates more frames names none inside := by
  intro s rest h
  cases h

-- What a parenthesis and a question mark open when no name and no condition follows: flags, of a
-- group or of what stands behind.
def flagGroup? (s : State) (text : List Char) : Option (State × List Char) := do
  let (f, close, after) ← flags? s.flags [] false '?' text
  if close == ':' then return (s.openGroup none f, after)
  else if text.head? == some ')' then none
  else return ({ s with flags := f, canRepeat := false }, after)

theorem simulates_flagGroup? (s : State) (text : List Char) :
    Simulates more frames names (flagGroup? s text)
      (flagGroup? (s.within frames names) (text ++ more)) := by
  have hflags : (s.within frames names).flags = s.flags := rfl
  intro s₁ rest₁ h s₂ rest₂ h'
  unfold flagGroup? at h h'
  simp only [Option.bind_eq_bind, Option.pure_def] at h
  obtain ⟨⟨f, close, after⟩, hread, heq⟩ := Option.bind_eq_some_iff.mp h
  have hhead : (text ++ more).head? = text.head? := by
    cases text with
    | nil => cases hread
    | cons c text => rfl
  simp only [Option.bind_eq_bind, Option.pure_def, hflags, flags?_append hread, Option.bind_some,
    hhead] at h'
  simp only at heq
  split at heq
  · next hcolon =>
    rw [if_pos hcolon] at h'
    exact simulates_some _ _ _ _ heq _ _ h'
  · next hcolon =>
    rw [if_neg hcolon] at h'
    split at heq
    · cases heq
    · next hempty =>
      rw [if_neg hempty] at h'
      exact simulates_some _ _ _ _ heq _ _ h'

theorem simulates_markedGroup? (hmore : Closes more) (s : State) (text : List Char) :
    Simulates more frames names (markedGroup? s text)
      (markedGroup? (s.within frames names) (text ++ more)) := by
  conv => arg 4; unfold markedGroup?
  split
  · exact simulates_none _
  · exact simulates_none _
  · exact simulates_none _
  · exact simulates_none _
  · exact simulates_openNamed? s _
  · next rest hahead hbehind =>
    rw [List.cons_append, markedGroup?.eq_6]
    · exact simulates_openNamed? s rest
    · intro rest' heq
      obtain ⟨rest', rfl, -⟩ := hmore.eq_cons (by decide) heq
      exact hahead rest' rfl
    · intro rest' heq
      obtain ⟨rest', rfl, -⟩ := hmore.eq_cons (by decide) heq
      exact hbehind rest' rfl
  · next hequal hbang hahead hbehind hnamed hangle =>
    cases text with
    | nil => exact simulates_none _
    | cons c text =>
      rw [markedGroup?.eq_7]
      · exact simulates_flagGroup? s (c :: text)
      · exact append_ne_of_first hequal
      · exact append_ne_of_first hbang
      · exact fun rest => append_ne_of_first hangle ('=' :: rest)
      · exact fun rest => append_ne_of_first hangle ('!' :: rest)
      · intro rest heq
        obtain ⟨rfl, htail⟩ := List.cons.inj heq
        obtain ⟨rest', rfl, -⟩ := hmore.eq_cons (by decide) htail
        exact hnamed rest' rfl
      · exact append_ne_of_first hangle

theorem simulates_group? (hmore : Closes more) (s : State) (text : List Char) :
    Simulates more frames names (group? s text)
      (group? (s.within frames names) (text ++ more)) := by
  have hflags : (s.within frames names).flags = s.flags := rfl
  unfold group?
  rw [hflags]
  cases hskip : s.flags.skip text with
  | nil =>
    rcases skip_append hmore s.flags text with hsame | ⟨-, hnil⟩
    · obtain ⟨tail, rfl, -⟩ := hmore
      rw [hsame, hskip]
      exact simulates_some _ []
    · rw [hnil]
      intro s₁ rest h s₂ rest' h'
      obtain ⟨rfl, rfl⟩ := Prod.mk.inj (Option.some.inj h)
      obtain ⟨rfl, rfl⟩ := Prod.mk.inj (Option.some.inj h')
      exact ⟨rfl, .inr ⟨rfl, rfl⟩⟩
  | cons c rest =>
    rw [skip_append_of_cons hmore hskip]
    by_cases hc : c = '?'
    · subst hc
      exact simulates_markedGroup? hmore s rest
    · split
      · next heq => exact absurd (List.cons.inj heq).1 hc
      · split
        · next heq => exact absurd (List.cons.inj heq).1 hc
        · exact simulates_some _ (c :: rest)

theorem closeGroup?_within {s s' : State} (h : s.closeGroup? = some s') :
    (s.within frames names).closeGroup? = some (s'.within frames names) := by
  unfold State.closeGroup? at h ⊢
  cases hframes : s.frames with
  | nil => simp [hframes] at h
  | cons frame frames' =>
    simp only [hframes, Option.some.injEq] at h
    subst h
    simp only [State.within, hframes, List.cons_append]
    rfl

theorem simulates_step? (hmore : Closes more) (s : State) (c : Char) (text : List Char) :
    Simulates more frames names (step? s c text)
      (step? (s.within frames names) c (text ++ more)) := by
  have hflags : (s.within frames names).flags = s.flags := rfl
  have hpush (p : Pattern) (rest : List Char) : Simulates more frames names (some (s.push p, rest))
      (some ((s.within frames names).push p, rest ++ more)) := simulates_some (s.push p) rest
  unfold step?
  rw [hflags]
  split
  · exact simulates_group? hmore s text
  · intro s₁ rest₁ h s₂ rest₂ h'
    obtain ⟨s', hclose, heq⟩ := Option.map_eq_some_iff.mp h
    rw [closeGroup?_within hclose] at h'
    exact simulates_some s' _ _ _ (by rw [← heq]) _ _ h'
  · exact simulates_some s.choose text
  · intro s₁ rest₁ h
    obtain ⟨⟨chars, rest⟩, hclass, heq⟩ := Option.map_eq_some_iff.mp h
    rw [keeps_class? hmore s.flags _ _ _ hclass]
    exact hpush _ _ _ _ (by rw [← heq])
  · exact simulates_repetition? hmore s _ text
  · exact simulates_repetition? hmore s _ text
  · exact simulates_repetition? hmore s _ text
  · intro s₁ rest₁ h
    obtain ⟨⟨counts, rest⟩, hcounts, heq⟩ := Option.bind_eq_some_iff.mp h
    rw [keeps_counts? hmore s.flags _ _ _ hcounts]
    exact simulates_repetition? hmore s counts rest _ _ heq
  · cases hdot : dot? s.flags with
    | none => exact simulates_none _
    | some chars => exact hpush _ _
  · exact hpush _ _
  · exact hpush _ _
  · intro s₁ rest₁ h
    obtain ⟨⟨e, rest⟩, hescape, heq⟩ := Option.bind_eq_some_iff.mp h
    rw [keeps_escape? hmore s.flags _ _ _ hescape]
    cases e with
    | char c => exact hpush _ _ _ _ heq
    | set chars => exact hpush _ _ _ _ heq
    | look l => exact hpush _ _ _ _ heq
  · exact hpush _ _

-- A pattern that is read alone is read as the same in a group, and the reader goes on behind it.
theorem Reads.within {tail text : List Char} {frame : Frame} {q p : Pattern}
    (hmore : Closes (')' :: tail)) (h : Reads s text q)
    (h' : Reads (s.within (frame :: frames) names) (text ++ ')' :: tail) p) :
    ∃ names', Reads ⟨frame.flags, frames, frame.choices, .group frame.name q :: frame.parts, true,
      names'⟩ tail p := by
  obtain ⟨fuel, h⟩ := h
  obtain ⟨fuel', h'⟩ := h'
  have hopen {fuel : Nat} {s : State} : readFrom? fuel (s.within (frame :: frames) names) [] ≠ some p := by
    cases fuel <;> simp [readFrom?, Flags.skip, skipBlanks, State.within]
  induction fuel generalizing fuel' s text with
  | zero => simp [readFrom?] at h
  | succ fuel ih =>
    cases fuel' with
    | zero => simp [readFrom?] at h'
    | succ fuel' =>
      have hflags : (s.within (frame :: frames) names).flags = s.flags := rfl
      rw [readFrom?] at h h'
      rw [hflags] at h'
      cases hskip : s.flags.skip text with
      | nil =>
        rcases skip_append hmore s.flags text with hsame | ⟨-, hnil⟩
        · simp only [hskip, List.isEmpty_iff] at h
          split at h
          · next hframes =>
            obtain rfl := Option.some.inj h
            rw [hsame, hskip] at h'
            have hclose : (s.within (frame :: frames) names).closeGroup? =
                some ⟨frame.flags, frames, frame.choices, .group frame.name s.whole :: frame.parts,
                  true, s.names ++ names⟩ := by
              simp only [State.closeGroup?, State.within, hframes, List.nil_append]
              rfl
            simp only [List.nil_append, step?, hclose, Option.map_some, Option.bind_eq_bind,
              Option.bind_some] at h'
            exact ⟨_, fuel', h'⟩
          · cases h
        · simp [hnil, State.within] at h'
      | cons c rest =>
        rw [skip_append_of_cons hmore hskip] at h'
        simp only [hskip, List.cons_append, Option.bind_eq_bind] at h h'
        obtain ⟨⟨s₁, rest₁⟩, hstep, hread⟩ := Option.bind_eq_some_iff.mp h
        obtain ⟨⟨s₂, rest₂⟩, hstep', hread'⟩ := Option.bind_eq_some_iff.mp h'
        obtain ⟨rfl, rfl | ⟨-, rfl⟩⟩ := simulates_step? hmore s c rest _ _ hstep _ _ hstep'
        · exact ih hread fuel' hread'
        · exact absurd hread' hopen

end Within

end Treeshake.Pattern.Reader
