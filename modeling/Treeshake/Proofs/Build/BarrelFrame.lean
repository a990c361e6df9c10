import Treeshake.Proofs.Build.BarrelLists
import Treeshake.Proofs.Json.Put

namespace Treeshake

open Source.Barrel Json

namespace Plan

variable {p : Plan} {s : Session} {request : String}

-- The request is for the barrel, and sources are pruned now.
def OpensBarrel (p : Plan) (s : Session) (request : String) : Prop :=
  p.mode = .production ∧ s.phase = .pruning ∧
    p.manifest.barrelRequest.toList <:+: request.toList

theorem opensBarrel_iff :
    p.OpensBarrel s request ↔ p.isBarrel request = true ∧ p.prunes s = true := by
  rw [OpensBarrel, prunes_eq_true_iff, isBarrel_iff_infix]
  tauto

theorem transformBarrel_of_closed (h : ¬p.OpensBarrel s request) (source : String)
    (package : Option Json) :
    (p.transformBarrel s request source package).Keeps s ⟨.ok none, package⟩ := by
  rw [opensBarrel_iff] at h
  by_cases hprunes : p.prunes s = true
  · have hrequest : p.isBarrel request = false := by simpa [hprunes] using h
    simp [transformBarrel, hrequest, silent, Outcome.Keeps]
  · exact transformBarrel_keeps (by simpa using hprunes) request source package

-- Without an object for a descriptor the source is not looked at, and nothing has been done yet.
theorem transformBarrel_of_no_object (h : p.OpensBarrel s request) (source : String)
    {package : Option Json} (hpackage : ∀ fields, package ≠ some (.object fields)) :
    (p.transformBarrel s request source package).Keeps s
      ⟨.error (.missingDescriptor request), package⟩ := by
  obtain ⟨hrequest, hprunes⟩ := opensBarrel_iff.mp h
  have hfault : overrideSideEffects request package p.settings.sideEffects =
      .error (.missingDescriptor request) := by
    unfold overrideSideEffects
    split
    · next fields => exact absurd rfl (hpackage fields)
    · rfl
  simp [transformBarrel, hrequest, hprunes, hfault, silent, Outcome.Keeps]

-- With a descriptor the transform succeeds, whatever the source is. The key that makes it note the
-- barrel may be expanded already.
theorem expandBarrel_frame (s : Session) (request source : String) (package : Json) :
    let o := expandBarrel s request source package
    (∃ text, o.answer.source = .ok text) ∧ o.answer.package = some package ∧
    ∃ seen, o.session = { s with barrelSeen := seen } ∧
      (seen = true ↔ s.barrelSeen = true ∨ HasKey source.toList) := by
  have hkey := hasKey_iff source s.record.components.names s.record.directives.names
  simp only [expandBarrel]
  cases hexpand : expand source s.record.components.names s.record.directives.names with
  | expanded text =>
    rw [hexpand] at hkey
    exact ⟨⟨_, rfl⟩, rfl, true, rfl, by simp [hkey]⟩
  | expandedBefore =>
    rw [hexpand] at hkey
    exact ⟨⟨_, rfl⟩, rfl, true, rfl, by simp [hkey]⟩
  | noKey =>
    rw [hexpand] at hkey
    exact ⟨⟨_, rfl⟩, rfl, s.barrelSeen, rfl, by simp [hkey]⟩

theorem transformBarrel_of_object (h : p.OpensBarrel s request) (source : String)
    (fields : List (String × Json)) :
    p.transformBarrel s request source (some (.object fields)) =
      expandBarrel s request source
        (.object (put sideEffectsKey p.settings.sideEffects.toJson fields)) := by
  obtain ⟨hrequest, hprunes⟩ := opensBarrel_iff.mp h
  simp [transformBarrel, hrequest, hprunes, overrideSideEffects]

-- All that a transform of the barrel can do.
theorem transformBarrel_cases (p : Plan) (s : Session) (request source : String)
    (package : Option Json) :
    let o := p.transformBarrel s request source package
    (¬p.OpensBarrel s request ∧ o.Keeps s ⟨.ok none, package⟩) ∨
    (p.OpensBarrel s request ∧ (∀ fields, package ≠ some (.object fields)) ∧
      o.Keeps s ⟨.error (.missingDescriptor request), package⟩) ∨
    (p.OpensBarrel s request ∧ ∃ fields, package = some (.object fields) ∧
      o = expandBarrel s request source
        (.object (put sideEffectsKey p.settings.sideEffects.toJson fields))) := by
  by_cases hopens : p.OpensBarrel s request
  · by_cases hpackage : ∃ fields, package = some (.object fields)
    · obtain ⟨fields, rfl⟩ := hpackage
      exact .inr (.inr ⟨hopens, fields, rfl, transformBarrel_of_object hopens source fields⟩)
    · have hnone : ∀ fields, package ≠ some (.object fields) := fun fields h => hpackage ⟨fields, h⟩
      exact .inr (.inl ⟨hopens, hnone, transformBarrel_of_no_object hopens source hnone⟩)
  · exact .inl ⟨hopens, transformBarrel_of_closed hopens source package⟩

theorem transformBarrel_error_iff {source : String} {package : Option Json} {fault : Fault} :
    (p.transformBarrel s request source package).answer.source = .error fault ↔
      (p.OpensBarrel s request ∧ ∀ fields, package ≠ some (.object fields)) ∧
        fault = .missingDescriptor request := by
  obtain ⟨hclosed, -, hanswer⟩ | ⟨hopens, hnone, -, hanswer⟩ | ⟨-, fields, rfl, ho⟩ :=
    transformBarrel_cases p s request source package
  · simp [hanswer, hclosed]
  · rw [hanswer]
    simpa [hopens, hnone] using eq_comm
  · obtain ⟨⟨text, htext⟩, -⟩ := expandBarrel_frame s request source
      (.object (put sideEffectsKey p.settings.sideEffects.toJson fields))
    simp [ho, htext]

theorem transformBarrel_failed {source : String} {package : Option Json} {fault : Fault}
    (h : (p.transformBarrel s request source package).answer.source = .error fault) :
    (p.transformBarrel s request source package).Keeps s ⟨.error fault, package⟩ := by
  obtain ⟨⟨hopens, hnone⟩, rfl⟩ := transformBarrel_error_iff.mp h
  exact transformBarrel_of_no_object hopens source hnone

-- The descriptor is given its side effects whenever the transform goes through to the source.
theorem transformBarrel_package {source : String} {package : Option Json} {text : Option String}
    (h : (p.transformBarrel s request source package).answer.source = .ok text) :
    (¬p.OpensBarrel s request →
      (p.transformBarrel s request source package).answer.package = package) ∧
    (p.OpensBarrel s request → ∃ fields placed, package = some (.object fields) ∧
      (p.transformBarrel s request source package).answer.package = some (.object placed) ∧
      Placed sideEffectsKey p.settings.sideEffects.toJson fields placed) := by
  obtain ⟨hclosed, -, hanswer⟩ | ⟨-, -, -, hanswer⟩ | ⟨hopens, fields, rfl, ho⟩ :=
    transformBarrel_cases p s request source package
  · exact ⟨fun _ => by rw [hanswer], fun hopens => absurd hopens hclosed⟩
  · rw [hanswer] at h
    cases h
  · obtain ⟨-, hput, -⟩ := expandBarrel_frame s request source
      (.object (put sideEffectsKey p.settings.sideEffects.toJson fields))
    exact ⟨fun hclosed => absurd hopens hclosed,
      fun _ => ⟨fields, _, rfl, ho ▸ hput, placed_iff.mpr rfl⟩⟩

theorem transformBarrel_barrelSeen {source : String} {package : Option Json} :
    (p.transformBarrel s request source package).session.barrelSeen = true ↔
      s.barrelSeen = true ∨ p.OpensBarrel s request ∧
        (∃ fields, package = some (.object fields)) ∧ HasKey source.toList := by
  obtain ⟨hclosed, hsession, -⟩ | ⟨-, hnone, hsession, -⟩ | ⟨hopens, fields, rfl, ho⟩ :=
    transformBarrel_cases p s request source package
  · simp [hsession, hclosed]
  · simp [hsession, hnone]
  · obtain ⟨-, -, seen, hsession, hseen⟩ := expandBarrel_frame s request source
      (.object (put sideEffectsKey p.settings.sideEffects.toJson fields))
    simp [ho, hsession, hseen, hopens]

def barrelDescriptor : List (String × Json) :=
  [("name", .string "quasar"), ("sideEffects", .bool true), ("version", .string "2.16.0")]

-- Whether the descriptor stays as it is has nothing to do with the source.
theorem transformBarrel_package_eq_self_iff {source : String} {fields : List (String × Json)} :
    (p.transformBarrel s request source (some (.object fields))).answer.package =
        some (.object fields) ↔
      ¬p.OpensBarrel s request ∨
        fields.lookup sideEffectsKey = some p.settings.sideEffects.toJson := by
  by_cases hopens : p.OpensBarrel s request
  · obtain ⟨-, hpackage, -⟩ := expandBarrel_frame s request source
      (.object (put sideEffectsKey p.settings.sideEffects.toJson fields))
    rw [transformBarrel_of_object hopens, hpackage, Option.some.injEq, Json.object.injEq,
      put_eq_self_iff]
    simp [hopens]
  · obtain ⟨-, hanswer⟩ := transformBarrel_of_closed hopens source (some (.object fields))
    simp [hanswer, hopens]

theorem expandBarrel_of_no_key {source : String} (hkey : ¬HasKey source.toList) (s : Session)
    (request : String) (package : Json) :
    (expandBarrel s request source package).Keeps s ⟨.ok none, some package⟩ := by
  rw [hasKey_iff source s.record.components.names s.record.directives.names, not_not] at hkey
  simp [expandBarrel, hkey, Outcome.Keeps]

-- A source without the key stays as it is, and so does the session. The descriptor does not, while
-- sources are pruned: it comes to say what the settings say, unless it has said so before, although
-- the barrel lists nothing.
theorem transformBarrel_without_key (p : Plan) (s : Session) (request source : String)
    (fields : List (String × Json)) (hkey : ¬HasKey source.toList) :
    let o := p.transformBarrel s request source (some (.object fields))
    o.session = s ∧ o.answer.source = .ok none ∧
    (o.answer.package = some (.object fields) ↔
      ¬p.OpensBarrel s request ∨
        fields.lookup sideEffectsKey = some p.settings.sideEffects.toJson) := by
  intro o
  have hkept : o.session = s ∧ o.answer.source = .ok none := by
    by_cases hopens : p.OpensBarrel s request
    · obtain ⟨hsession, hanswer⟩ := expandBarrel_of_no_key hkey s request
        (.object (put sideEffectsKey p.settings.sideEffects.toJson fields))
      rw [← transformBarrel_of_object hopens] at hsession hanswer
      exact ⟨hsession, by rw [hanswer]⟩
    · obtain ⟨hsession, hanswer⟩ := transformBarrel_of_closed hopens source (some (.object fields))
      exact ⟨hsession, by rw [hanswer]⟩
  exact ⟨hkept.1, hkept.2, transformBarrel_package_eq_self_iff⟩

-- A barrel that installs nothing.
def plainBarrel : String := "export * from './components.js'"

theorem plainBarrel_no_key : ¬HasKey plainBarrel.toList := by
  rw [← splitAtComponents?_isSome_iff]
  decide

theorem opensBarrel_firstPass : small.OpensBarrel (small.sessionAfter .initial firstPass)
    barrelRequest :=
  ⟨rfl, (phase_eq_pruning_iff rfl firstPass).mpr rfl, barrelRequest_infix⟩

-- What the package says of itself is not what the settings say.
theorem barrelDescriptor_lookup :
    barrelDescriptor.lookup sideEffectsKey ≠ some small.settings.sideEffects.toJson := by
  intro h
  cases h

theorem transformBarrel_without_key_plain :
    ¬HasKey plainBarrel.toList ∧
    (small.transformBarrel (small.sessionAfter .initial firstPass) barrelRequest plainBarrel
      (some (.object barrelDescriptor))).answer.source = .ok none ∧
    (small.transformBarrel (small.sessionAfter .initial firstPass) barrelRequest plainBarrel
      (some (.object barrelDescriptor))).answer.package ≠ some (.object barrelDescriptor) := by
  obtain ⟨-, hsource, hpackage⟩ := transformBarrel_without_key small
    (small.sessionAfter .initial firstPass) barrelRequest plainBarrel barrelDescriptor
    plainBarrel_no_key
  refine ⟨plainBarrel_no_key, hsource, fun hsame => ?_⟩
  exact (hpackage.mp hsame).elim (fun hclosed => hclosed opensBarrel_firstPass)
    barrelDescriptor_lookup

-- So a build may let go of members that no list has replaced.
theorem descriptor_changes_without_key :
    ¬∀ ops request source fields,
      small.manifest.barrelRequest.toList <:+: request.toList → ¬HasKey source.toList →
      (small.transformBarrel (small.sessionAfter .initial ops) request source
        (some (.object fields))).answer.package = some (.object fields) := by
  intro h
  have hsame := h firstPass barrelRequest plainBarrel barrelDescriptor barrelRequest_infix
    plainBarrel_no_key
  exact (transformBarrel_package_eq_self_iff.mp hsame).elim
    (fun hclosed => hclosed opensBarrel_firstPass) barrelDescriptor_lookup

end Plan

end Treeshake
