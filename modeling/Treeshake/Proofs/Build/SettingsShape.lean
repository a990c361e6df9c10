import Treeshake.Build.Fault
import Treeshake.Build.Settings

namespace Treeshake.Json

theorem readBool_eq_ok_iff {value : Json} {b : Bool} :
    readBool value = .ok b ↔ value = .bool b := by
  cases value <;> simp [readBool]

theorem strings?_eq_some_iff {items : List Json} {files : List String} :
    strings? items = some files ↔ items = files.map .string := by
  induction items generalizing files with
  | nil => simp [strings?, eq_comm]
  | cons item items ih =>
    cases item with
    | string s =>
      rw [strings?, Option.map_eq_some_iff]
      constructor
      · rintro ⟨rest, hrest, rfl⟩
        rw [ih.mp hrest, List.map_cons]
      · intro h
        cases files with
        | nil => cases h
        | cons file files =>
          obtain ⟨hfile, hfiles⟩ := List.cons.inj h
          exact ⟨files, ih.mpr hfiles, by rw [Json.string.inj hfile]⟩
    | _ => cases files <;> simp [strings?]

theorem readSideEffects_eq_ok_iff {value : Json} {effects : SideEffects} :
    readSideEffects value = .ok effects ↔ value = effects.toJson := by
  constructor
  · intro h
    unfold readSideEffects at h
    split at h
    · obtain rfl := Except.ok.inj h
      rfl
    · split at h
      · next files hfiles =>
        obtain rfl := Except.ok.inj h
        rw [strings?_eq_some_iff.mp hfiles, SideEffects.toJson]
      · cases h
    · cases h
  · rintro rfl
    cases effects with
    | flag b => rfl
    | patterns files => rw [SideEffects.toJson, readSideEffects, strings?_eq_some_iff.mpr rfl]

theorem toJson_injective {effects effects' : SideEffects} :
    effects.toJson = effects'.toJson ↔ effects = effects' := by
  rw [← readSideEffects_eq_ok_iff, readSideEffects_eq_ok_iff.mpr rfl, Except.ok.injEq]

-- A field that settings may have.
inductive Setting : String × Json → Prop where
  | sideEffects (effects : SideEffects) : Setting ("sideEffectsOverride", effects.toJson)
  | ssr (b : Bool) : Setting ("enableSsr", .bool b)
  | pwa (b : Bool) : Setting ("enablePwa", .bool b)

-- What one field makes of the settings.
inductive Sets (start : Settings) : String × Json → Settings → Prop where
  | sideEffects (effects : SideEffects) :
      Sets start ("sideEffectsOverride", effects.toJson) { start with sideEffects := effects }
  | ssr (b : Bool) : Sets start ("enableSsr", .bool b) { start with ssr := b }
  | pwa (b : Bool) : Sets start ("enablePwa", .bool b) { start with pwa := b }

-- What stands last under a name, or else the given value.
def lastOr (name : String) (otherwise : Json) (fields : List (String × Json)) : Json :=
  (fields.reverse.lookup name).getD otherwise

-- All fields are settings, and they change the first settings into the second ones.
structure Describes (start : Settings) (fields : List (String × Json)) (settings : Settings) :
    Prop where
  known : ∀ field ∈ fields, Setting field
  sideEffects : settings.sideEffects.toJson =
    lastOr "sideEffectsOverride" start.sideEffects.toJson fields
  ssr : .bool settings.ssr = lastOr "enableSsr" (.bool start.ssr) fields
  pwa : .bool settings.pwa = lastOr "enablePwa" (.bool start.pwa) fields

section Fields

variable {start settings : Settings} {name : String} {value otherwise : Json}
  {field : String × Json} {fields : List (String × Json)}

theorem Sets.setting {next : Settings} (h : Sets start field next) : Setting field := by
  cases h with
  | sideEffects effects => exact .sideEffects effects
  | ssr b => exact .ssr b
  | pwa b => exact .pwa b

theorem map_eq_ok_iff {α β : Type} {f : α → β} {result : Except Fault α} {b : β} :
    f <$> result = .ok b ↔ ∃ a, result = .ok a ∧ f a = b := by
  cases result <;> simp [Functor.map, Except.map]

theorem readSetting_eq_ok_iff {next : Settings} :
    readSetting start name value = .ok next ↔ Sets start (name, value) next := by
  constructor
  · intro h
    unfold readSetting at h
    split at h
    · obtain ⟨effects, heffects, rfl⟩ := map_eq_ok_iff.mp h
      rw [readSideEffects_eq_ok_iff.mp heffects]
      exact .sideEffects effects
    · obtain ⟨b, hb, rfl⟩ := map_eq_ok_iff.mp h
      rw [readBool_eq_ok_iff.mp hb]
      exact .ssr b
    · obtain ⟨b, hb, rfl⟩ := map_eq_ok_iff.mp h
      rw [readBool_eq_ok_iff.mp hb]
      exact .pwa b
    · cases h
  · intro h
    cases h with
    | sideEffects effects =>
      exact map_eq_ok_iff.mpr ⟨effects, readSideEffects_eq_ok_iff.mpr rfl, rfl⟩
    | ssr b => rfl
    | pwa b => rfl

theorem lastOr_cons (name : String) (otherwise : Json) (field : String × Json)
    (fields : List (String × Json)) :
    lastOr name otherwise (field :: fields) =
      lastOr name (if name = field.1 then field.2 else otherwise) fields := by
  obtain ⟨key, value⟩ := field
  rw [lastOr, List.reverse_cons, List.lookup_append, lastOr]
  by_cases hkey : name = key
  · cases fields.reverse.lookup name <;> simp [hkey]
  · have hne : (name == key) = false := beq_eq_false_iff_ne.mpr hkey
    cases fields.reverse.lookup name <;> simp [List.lookup_cons, hkey, hne]

theorem describes_nil : Describes start [] settings ↔ settings = start := by
  constructor
  · rintro ⟨-, heffects, hssr, hpwa⟩
    have heffects : settings.sideEffects = start.sideEffects := toJson_injective.mp heffects
    obtain ⟨effects, ssr, pwa⟩ := settings
    obtain rfl := heffects
    obtain rfl : ssr = start.ssr := Json.bool.inj hssr
    obtain rfl : pwa = start.pwa := Json.bool.inj hpwa
    rfl
  · rintro rfl
    exact ⟨List.forall_mem_nil _, rfl, rfl, rfl⟩

-- What the first field makes of the settings is what the others start from.
theorem describes_cons :
    Describes start (field :: fields) settings ↔
      ∃ next, Sets start field next ∧ Describes next fields settings := by
  constructor
  · rintro ⟨hknown, heffects, hssr, hpwa⟩
    obtain ⟨hfield, hrest⟩ := List.forall_mem_cons.mp hknown
    rw [lastOr_cons] at heffects hssr hpwa
    cases hfield with
    | sideEffects effects => exact ⟨_, .sideEffects effects, hrest, heffects, hssr, hpwa⟩
    | ssr b => exact ⟨_, .ssr b, hrest, heffects, hssr, hpwa⟩
    | pwa b => exact ⟨_, .pwa b, hrest, heffects, hssr, hpwa⟩
  · rintro ⟨next, hsets, hrest, heffects, hssr, hpwa⟩
    refine ⟨List.forall_mem_cons.mpr ⟨hsets.setting, hrest⟩, ?_, ?_, ?_⟩
    all_goals
      rw [lastOr_cons]
      cases hsets <;> assumption

theorem readSettingFields_eq_ok_iff :
    readSettingFields start fields = .ok settings ↔ Describes start fields settings := by
  induction fields generalizing start with
  | nil => rw [readSettingFields, describes_nil, Except.ok.injEq, eq_comm]
  | cons field fields ih =>
    obtain ⟨name, value⟩ := field
    rw [describes_cons, readSettingFields]
    simp only [← readSetting_eq_ok_iff, ← ih]
    cases readSetting start name value with
    | ok next => simp [bind, Except.bind]
    | error fault => simp [bind, Except.bind]

end Fields

-- Which settings a value is read as. A list has the values of the fields in their order, and may
-- leave out the last ones.
inductive Accepts : Json → Settings → Prop where
  | absent : Accepts .null .standard
  | object {fields : List (String × Json)} {settings : Settings}
      (h : Describes .standard fields settings) : Accepts (.object fields) settings
  | list {items : List Json} {settings : Settings} (hlength : items.length ≤ 3)
      (h : Describes .standard
        (["sideEffectsOverride", "enableSsr", "enablePwa"].zip items) settings) :
      Accepts (.array items) settings

theorem readSettings_eq_ok_iff {value : Json} {settings : Settings} :
    readSettings value = .ok settings ↔ Accepts value settings := by
  constructor
  · intro h
    unfold readSettings at h
    split at h
    · obtain rfl := Except.ok.inj h
      exact .absent
    · exact .object (readSettingFields_eq_ok_iff.mp h)
    · next items =>
      cases hread : readSettingFields .standard (settingNames.zip items) with
      | error fault =>
        rw [hread] at h
        cases h
      | ok found =>
        rw [hread] at h
        change (if _ then _ else _) = _ at h
        split at h
        · next hlength =>
          obtain rfl := Except.ok.inj h
          exact .list hlength (readSettingFields_eq_ok_iff.mp hread)
        · cases h
    · cases h
  · intro h
    cases h with
    | absent => rfl
    | object h => exact readSettingFields_eq_ok_iff.mpr h
    | list hlength h =>
      rw [readSettings, settingNames, readSettingFields_eq_ok_iff.mpr h]
      exact if_pos hlength

-- A value either is read as settings or is a fault of the options.
theorem readSettings_accepts (value : Json) :
    (∀ settings, (readSettings value).mapError Treeshake.Fault.options = .ok settings ↔
      Accepts value settings) ∧
    ((∀ settings, ¬Accepts value settings) ↔
      ∃ cause, (readSettings value).mapError Treeshake.Fault.options = .error (.options cause)) := by
  simp only [← readSettings_eq_ok_iff]
  cases readSettings value with
  | ok settings =>
    have hkept : (Except.ok settings).mapError Treeshake.Fault.options = .ok settings := rfl
    simp [hkept]
  | error fault =>
    have htold : (Except.error fault : Except Fault Settings).mapError Treeshake.Fault.options =
        .error (.options fault) := rfl
    simp [htold]

-- A list is no object, and yet it is read.
theorem empty_list_accepted :
    (readSettings (.array [])).mapError Treeshake.Fault.options = .ok .standard ∧
      Json.array [] ≠ .null ∧ ∀ fields, Json.array [] ≠ .object fields :=
  ⟨rfl, Json.noConfusion, fun _ => Json.noConfusion⟩

end Treeshake.Json
