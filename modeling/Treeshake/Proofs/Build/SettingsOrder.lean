import Mathlib.Data.List.Nodup
import Treeshake.Proofs.Build.SettingsShape

namespace Treeshake.Json

section Fields

variable {fields others : List (String × Json)}

-- Where no key is repeated, it does not matter which field under a key is the first.
theorem lookup_eq_some_iff_mem {name : String} {value : Json}
    (hkeys : (fields.map Prod.fst).Nodup) :
    fields.lookup name = some value ↔ (name, value) ∈ fields := by
  induction fields with
  | nil => simp
  | cons field rest ih =>
    obtain ⟨key, other⟩ := field
    rw [List.map_cons, List.nodup_cons] at hkeys
    obtain ⟨hfresh, hrest⟩ := hkeys
    by_cases hkey : name = key
    · subst hkey
      have habsent : (name, value) ∉ rest := by
        intro hmem
        exact hfresh (List.mem_map.mpr ⟨_, hmem, rfl⟩)
      simp [habsent, eq_comm]
    · have hne : (name == key) = false := beq_eq_false_iff_ne.mpr hkey
      simp [List.lookup_cons, hne, hkey, ih hrest]

theorem lookup_eq_of_perm (hkeys : (fields.map Prod.fst).Nodup) (hperm : others.Perm fields)
    (name : String) : others.lookup name = fields.lookup name := by
  have hkeys' : (others.map Prod.fst).Nodup := (hperm.map Prod.fst).nodup_iff.mpr hkeys
  apply Option.ext
  intro value
  rw [lookup_eq_some_iff_mem hkeys', lookup_eq_some_iff_mem hkeys, hperm.mem_iff]

theorem lastOr_eq_of_perm (hkeys : (fields.map Prod.fst).Nodup) (hperm : others.Perm fields)
    (name : String) (otherwise : Json) :
    lastOr name otherwise others = lastOr name otherwise fields := by
  have hkeys' : (fields.reverse.map Prod.fst).Nodup := by
    rw [List.map_reverse, List.nodup_reverse]
    exact hkeys
  have hperm' : others.reverse.Perm fields.reverse :=
    others.reverse_perm.trans (hperm.trans fields.reverse_perm.symm)
  rw [lastOr, lastOr, lookup_eq_of_perm hkeys' hperm']

theorem describes_iff_of_perm {start settings : Settings} (hkeys : (fields.map Prod.fst).Nodup)
    (hperm : others.Perm fields) :
    Describes start others settings ↔ Describes start fields settings := by
  have hlast := lastOr_eq_of_perm hkeys hperm
  constructor
  · rintro ⟨hknown, heffects, hssr, hpwa⟩
    rw [hlast] at heffects hssr hpwa
    exact ⟨fun field hmem => hknown field (hperm.mem_iff.mpr hmem), heffects, hssr, hpwa⟩
  · rintro ⟨hknown, heffects, hssr, hpwa⟩
    rw [← hlast] at heffects hssr hpwa
    exact ⟨fun field hmem => hknown field (hperm.mem_iff.mp hmem), heffects, hssr, hpwa⟩

end Fields

-- Every field is written, so that nothing is left of what reading starts from.
theorem describes_toFields (start settings : Settings) :
    Describes start settings.toFields settings := by
  refine ⟨?_, ?_, ?_, ?_⟩
  · rw [Settings.toFields]
    simp only [List.forall_mem_cons]
    exact ⟨.sideEffects _, .ssr _, .pwa _, List.forall_mem_nil _⟩
  · simp [Settings.toFields, lastOr, List.lookup_cons]
  · simp [Settings.toFields, lastOr, List.lookup_cons]
  · simp [Settings.toFields, lastOr]

theorem mapError_eq_ok_iff {result : Except Fault Settings} {settings : Settings} :
    result.mapError Treeshake.Fault.options = .ok settings ↔ result = .ok settings := by
  cases result <;> simp [Except.mapError]

theorem readSettings_object_iff {fields : List (String × Json)} {settings : Settings} :
    (readSettings (.object fields)).mapError Treeshake.Fault.options = .ok settings ↔
      Describes .standard fields settings := by
  rw [mapError_eq_ok_iff]
  exact readSettingFields_eq_ok_iff

-- All settings survive being written and read. An object has no key twice, and then the order of
-- its fields decides neither whether it is read nor as which settings.
theorem written_settings_read_back :
    (∀ settings : Settings,
      (readSettings settings.toJson).mapError Treeshake.Fault.options = .ok settings) ∧
    ∀ fields others : List (String × Json), (fields.map Prod.fst).Nodup → others.Perm fields →
      ∀ settings,
        (readSettings (.object others)).mapError Treeshake.Fault.options = .ok settings ↔
          (readSettings (.object fields)).mapError Treeshake.Fault.options = .ok settings := by
  constructor
  · intro settings
    exact readSettings_object_iff.mpr (describes_toFields .standard settings)
  · intro fields others hkeys hperm settings
    rw [readSettings_object_iff, readSettings_object_iff, describes_iff_of_perm hkeys hperm]

-- A build for servers, read from its fields the other way round.
theorem written_settings_read_back_reversed :
    let settings : Settings := ⟨.patterns ["*.css", "\"quoted\".sass"], true, false⟩
    (readSettings settings.toJson).mapError Treeshake.Fault.options = .ok settings ∧
    (settings.toFields.map Prod.fst).Nodup ∧ settings.toFields.reverse.Perm settings.toFields ∧
    (readSettings (.object settings.toFields.reverse)).mapError Treeshake.Fault.options =
      .ok settings := by
  intro settings
  obtain ⟨hwritten, hordered⟩ := written_settings_read_back
  have hkeys : (settings.toFields.map Prod.fst).Nodup := by decide
  have hperm : settings.toFields.reverse.Perm settings.toFields := List.reverse_perm _
  have hread := hwritten settings
  exact ⟨hread, hkeys, hperm, (hordered _ _ hkeys hperm settings).mpr hread⟩

end Treeshake.Json
