import SreAgent.Base.JsonText
import SreAgent.Base.LengthPrefix
import SreAgent.Base.Text

/-!
# Alert fingerprints and incident identities

`make_alert_fingerprint`, `make_incident_identity_v2` and when two alerts are filed under one
incident. An identity is the hash of four length-prefixed parts, so equal keys mean equal parts
(`identity_key_eq_iff`); the third and fourth part are folder and alert name of a valid alert, or
a sentinel and the stripped fingerprint of an invalid one. The sentinels are text like any other
and the fingerprint is stripped, so the parts separate alerts exactly when none of the cases of
`Isolated` is met.
-/

namespace SreAgent.Alerts
open Base

/-- What is computed outside the repository: SHA-256 as 64 hexadecimal digits, and the text of a
float. -/
structure Hashing where
  hexdigest : List UInt8 → String
  floatText : FloatVal → String
  digits : ∀ b, (hexdigest b).toList.length = 64 ∧ ∀ c ∈ (hexdigest b).toList, c ∈ "0123456789abcdef".toList

namespace Hashing

theorem strip_hexdigest (h : Hashing) (b : List UInt8) : Text.strip (h.hexdigest b) = h.hexdigest b := by
  have none_space : ("0123456789abcdef".toList.all fun c => Text.isSpace c = false) = true := by decide
  exact Text.strip_of_no_space fun c hc =>
    of_decide_eq_true (List.all_eq_true.1 none_space c ((h.digits b).2 c hc))

theorem hexdigest_ne_empty (h : Hashing) (b : List UInt8) : h.hexdigest b ≠ "" := by
  intro empty
  have := (h.digits b).1
  simp [empty] at this

end Hashing

/-- `_canonical_sha256`. -/
def canonicalSha256 (h : Hashing) (value : Json) : String :=
  h.hexdigest (Text.utf8 (JsonText.dumps ⟨false, true, h.floatText⟩ value))

/-- The hash `make_alert_fingerprint` falls back to. -/
def labelHash (h : Hashing) (sourceId : Uuid) (labels : JsonObject) : String :=
  canonicalSha256 h (.obj [("labels", .obj (JsonText.sortItems labels)), ("source_id", .str sourceId.text)])

/-- `make_alert_fingerprint`. -/
def makeAlertFingerprint (h : Hashing) (sourceId : Uuid) (grafanaFingerprint : String) (labels : JsonObject) :
    String :=
  if grafanaFingerprint ≠ "" then grafanaFingerprint else labelHash h sourceId labels

structure AlertValidationError where
  field : String
  code : String
  deriving DecidableEq

structure IncidentIdentity where
  key : String
  version : Nat
  parts : List String
  errors : List AlertValidationError
  deriving DecidableEq

/-- `_encode`; `none` is the `OverflowError` of a part of 4 GiB. -/
def encode (parts : List String) : Option (List UInt8) := LengthPrefix.encode 4 (parts.map Text.utf8)

/-- `value.strip()` where there is text, else the empty text. -/
def normalized (value : Option String) : String := (value.map Text.strip).getD ""

/-- `value or default`. -/
def orElse (value default : String) : String := if value ≠ "" then value else default

/-- `make_incident_identity_v2`. -/
def makeIncidentIdentityV2 (h : Hashing) (sourceId : Uuid) (folder alertName : Option String)
    (fingerprint : String) :
    Option IncidentIdentity := do
  let normalizedFolder := normalized folder
  let normalizedAlertName := normalized alertName
  let normalizedFingerprint := Text.strip fingerprint
  let errors : List AlertValidationError :=
    (if normalizedFolder = "" then [⟨"folder", "required"⟩] else []) ++
    (if normalizedAlertName = "" then [⟨"alertname", "required"⟩] else []) ++
    (if normalizedFingerprint = "" then [⟨"fingerprint", "required"⟩] else [])
  let parts :=
    if errors ≠ [] then ["2", sourceId.text, "__invalid__", orElse normalizedFingerprint "__missing__"]
    else ["2", sourceId.text, normalizedFolder, normalizedAlertName]
  let encoded ← encode parts
  some { key := h.hexdigest encoded, version := 2, parts := parts, errors := errors }

/-! ## One alert -/

/-- An alert of a source, as far as its identity goes. -/
structure IdentifiedAlert where
  sourceId : Uuid
  folder : Option String
  alertName : Option String
  grafanaFingerprint : String
  labels : JsonObject

namespace IdentifiedAlert

/-- The fingerprint the normalizer computes. -/
def fingerprint (h : Hashing) (a : IdentifiedAlert) : String :=
  makeAlertFingerprint h a.sourceId a.grafanaFingerprint a.labels

/-- The identity ingestion computes. -/
def identity (h : Hashing) (a : IdentifiedAlert) : Option IncidentIdentity :=
  makeIncidentIdentityV2 h a.sourceId a.folder a.alertName (a.fingerprint h)

/-- Folder and alert name, stripped. -/
def names (a : IdentifiedAlert) : String × String := (normalized a.folder, normalized a.alertName)

/-- Both folder and alert name are there and not blank. -/
def Named (a : IdentifiedAlert) : Prop := normalized a.folder ≠ "" ∧ normalized a.alertName ≠ ""

/-- Grafana sent a fingerprint of whitespace alone. -/
def BlankFingerprint (a : IdentifiedAlert) : Prop :=
  a.grafanaFingerprint ≠ "" ∧ Text.strip a.grafanaFingerprint = ""

instance (a : IdentifiedAlert) : Decidable a.Named := by unfold Named; infer_instance

instance (a : IdentifiedAlert) : Decidable a.BlankFingerprint := by unfold BlankFingerprint; infer_instance

/-- The fingerprint with a missing or blank one replaced by the hash of source and labels. -/
def trueFingerprint (h : Hashing) (a : IdentifiedAlert) : String :=
  if Text.strip a.grafanaFingerprint = "" then labelHash h a.sourceId a.labels else a.grafanaFingerprint

/-- The two parts of the identity after version and source. -/
def filed (h : Hashing) (a : IdentifiedAlert) : String × String :=
  if a.Named ∧ Text.strip (a.fingerprint h) ≠ "" then a.names
  else ("__invalid__", orElse (Text.strip (a.fingerprint h)) "__missing__")

variable {h : Hashing} {a : IdentifiedAlert}

/-- A blank fingerprint is kept, and strips to nothing. -/
theorem fingerprint_of_blank (blank : a.BlankFingerprint) : Text.strip (a.fingerprint h) = "" := by
  rw [fingerprint, makeAlertFingerprint, if_pos blank.1]
  exact blank.2

/-- Only a blank fingerprint strips to nothing: the hash of source and labels does not. -/
theorem strip_fingerprint_eq_empty : Text.strip (a.fingerprint h) = "" ↔ a.BlankFingerprint := by
  refine ⟨fun empty => ?_, fingerprint_of_blank⟩
  rw [fingerprint, makeAlertFingerprint] at empty
  split at empty
  · next given => exact ⟨given, empty⟩
  · rw [labelHash, canonicalSha256, h.strip_hexdigest] at empty
    exact absurd empty (h.hexdigest_ne_empty _)

theorem trueFingerprint_of_blank (blank : a.BlankFingerprint) :
    a.trueFingerprint h = labelHash h a.sourceId a.labels := if_pos blank.2

theorem trueFingerprint_of_not_blank (given : ¬ a.BlankFingerprint) :
    a.trueFingerprint h = a.fingerprint h := by
  rw [trueFingerprint, fingerprint, makeAlertFingerprint]
  by_cases empty : a.grafanaFingerprint = ""
  · simp [empty, show Text.strip "" = "" by decide]
  · have : Text.strip a.grafanaFingerprint ≠ "" := fun blank => given ⟨empty, blank⟩
    simp [empty, this]

/-- A named alert is filed under its names, unless its fingerprint is blank. -/
theorem filed_of_named (named : a.Named) (given : ¬ a.BlankFingerprint) : a.filed h = a.names :=
  if_pos ⟨named, fun empty => given (strip_fingerprint_eq_empty.1 empty)⟩

/-- An alert with a blank fingerprint is filed as missing. -/
theorem filed_of_blank (blank : a.BlankFingerprint) : a.filed h = ("__invalid__", "__missing__") := by
  have empty := fingerprint_of_blank (h := h) blank
  simp [filed, empty, orElse]

theorem filed_of_unnamed (unnamed : ¬ a.Named) (given : ¬ a.BlankFingerprint) :
    a.filed h = ("__invalid__", Text.strip (a.fingerprint h)) := by
  have full : Text.strip (a.fingerprint h) ≠ "" := fun empty => given (strip_fingerprint_eq_empty.1 empty)
  simp [filed, unnamed, orElse, full]

/-- The key of an alert is the hash of its source and of the parts it is filed under. -/
theorem identity_eq_some {i : IncidentIdentity} (hi : a.identity h = some i) :
    ∃ bytes, encode ["2", a.sourceId.text, (a.filed h).1, (a.filed h).2] = some bytes ∧
      i.key = h.hexdigest bytes := by
  unfold identity makeIncidentIdentityV2 at hi
  obtain ⟨bytes, hb, hi⟩ := Option.bind_eq_some_iff.1 hi
  cases hi
  refine ⟨bytes, ?_, rfl⟩
  rw [← hb]
  congr 1
  by_cases hf : normalized a.folder = "" <;> by_cases hn : normalized a.alertName = "" <;>
    by_cases hp : Text.strip (a.fingerprint h) = "" <;> simp [filed, Named, names, hf, hn, hp]

end IdentifiedAlert

/-! ## Two alerts -/

/-- What filing promises: one incident for alerts of one source that agree on folder and alert name,
and for invalid alerts of one source with one fingerprint. -/
def SameIncident (h : Hashing) (a b : IdentifiedAlert) : Prop :=
  a.sourceId = b.sourceId ∧
    (a.Named ∧ b.Named ∧ a.names = b.names ∨
      ¬ a.Named ∧ ¬ b.Named ∧ a.trueFingerprint h = b.trueFingerprint h)

/-- No two of these byte strings collide. -/
def CollisionFree (h : Hashing) (a b : IdentifiedAlert) : Prop :=
  ∀ x y, encode ["2", a.sourceId.text, (a.filed h).1, (a.filed h).2] = some x →
    encode ["2", b.sourceId.text, (b.filed h).1, (b.filed h).2] = some y →
      h.hexdigest x = h.hexdigest y → x = y

/-- The sentinels `__invalid__` and `__missing__` do not stand for this alert: as its names when its
fingerprint is there, or because its fingerprint is blank. -/
def IdentifiedAlert.ClearOfSentinels (a : IdentifiedAlert) : Prop :=
  ¬ a.BlankFingerprint ∧ a.names ≠ ("__invalid__", "__missing__")

instance (a : IdentifiedAlert) : Decidable a.ClearOfSentinels := by
  unfold IdentifiedAlert.ClearOfSentinels; infer_instance

/-- The names of a valid alert do not read as the fallback of an invalid one. -/
def ApartFromFallback (h : Hashing) (valid invalid : IdentifiedAlert) : Prop :=
  (¬ invalid.BlankFingerprint → Text.strip (invalid.fingerprint h) = "__missing__" →
    ¬ valid.BlankFingerprint) ∧
  (invalid.BlankFingerprint → valid.ClearOfSentinels) ∧
  (¬ invalid.BlankFingerprint → ¬ valid.BlankFingerprint →
    valid.names ≠ ("__invalid__", Text.strip (invalid.fingerprint h)))

/-- The pairs of alerts of one source that filing keeps apart, or together, as it promises. -/
structure Isolated (h : Hashing) (a b : IdentifiedAlert) : Prop where
  /-- Two named alerts: a blank fingerprint replaces the names by the sentinels. -/
  named : a.Named → b.Named → a.BlankFingerprint ∨ b.BlankFingerprint →
    (a.names = b.names ↔ ¬ a.ClearOfSentinels ∧ ¬ b.ClearOfSentinels)
  /-- A named alert and an invalid one. -/
  mixed : (a.Named → ¬ b.Named → ApartFromFallback h a b) ∧ (b.Named → ¬ a.Named → ApartFromFallback h b a)
  /-- Two invalid alerts whose fingerprints differ in surrounding whitespace alone. -/
  stripped : ¬ a.Named → ¬ b.Named → ¬ a.BlankFingerprint → ¬ b.BlankFingerprint →
    Text.strip (a.fingerprint h) = Text.strip (b.fingerprint h) → a.fingerprint h = b.fingerprint h
  /-- Two invalid alerts with blank fingerprints. -/
  blanks : ¬ a.Named → ¬ b.Named → a.BlankFingerprint → b.BlankFingerprint →
    labelHash h a.sourceId a.labels = labelHash h b.sourceId b.labels
  /-- Two invalid alerts, one with a blank fingerprint. -/
  oneBlank : ¬ a.Named → ¬ b.Named →
    (a.BlankFingerprint → ¬ b.BlankFingerprint →
      (Text.strip (b.fingerprint h) = "__missing__" ↔ labelHash h a.sourceId a.labels = b.fingerprint h)) ∧
    (b.BlankFingerprint → ¬ a.BlankFingerprint →
      (Text.strip (a.fingerprint h) = "__missing__" ↔ labelHash h b.sourceId b.labels = a.fingerprint h))

/-- Keys are equal exactly for one source and one filing. -/
theorem identity_key_eq_iff {h : Hashing} {a b : IdentifiedAlert} {i j : IncidentIdentity}
    (hi : a.identity h = some i) (hj : b.identity h = some j) (free : CollisionFree h a b) :
    i.key = j.key ↔ a.sourceId = b.sourceId ∧ a.filed h = b.filed h := by
  obtain ⟨x, hx, hkey⟩ := IdentifiedAlert.identity_eq_some hi
  obtain ⟨y, hy, hkey'⟩ := IdentifiedAlert.identity_eq_some hj
  rw [hkey, hkey']
  constructor
  · intro same
    have hxy := free x y hx hy same
    subst hxy
    have parts := LengthPrefix.encode_injective (by decide) hx hy
    have parts := (List.map_inj_right fun s t => Text.utf8_injective).1 parts
    simp only [List.cons.injEq, and_true, true_and] at parts
    exact ⟨Uuid.text_injective parts.1, Prod.ext parts.2.1 parts.2.2⟩
  · rintro ⟨source, filed⟩
    rw [source, filed, hy] at hx
    rw [Option.some.inj hx]

section Pairs

open IdentifiedAlert

variable {h : Hashing} {a b : IdentifiedAlert}

/-- Named alerts belong together by their names. -/
theorem sameIncident_named (na : a.Named) (nb : b.Named) :
    SameIncident h a b ↔ a.sourceId = b.sourceId ∧ a.names = b.names := by
  simp [SameIncident, na, nb]

/-- Unnamed alerts belong together by their fingerprints. -/
theorem sameIncident_unnamed (na : ¬ a.Named) (nb : ¬ b.Named) :
    SameIncident h a b ↔ a.sourceId = b.sourceId ∧ a.trueFingerprint h = b.trueFingerprint h := by
  simp [SameIncident, na, nb]

/-- A named alert and an unnamed one never belong together. -/
theorem not_sameIncident_mixed (differ : ¬ (a.Named ↔ b.Named)) : ¬ SameIncident h a b := by
  rintro ⟨-, ⟨na, nb, -⟩ | ⟨na, nb, -⟩⟩
  · exact differ (iff_of_true na nb)
  · exact differ (iff_of_false na nb)

/-- Two named alerts are filed together exactly when they should be. -/
theorem filed_iff_named (na : a.Named) (nb : b.Named) :
    (a.filed h = b.filed h ↔ a.names = b.names) ↔
      (a.BlankFingerprint ∨ b.BlankFingerprint →
        (a.names = b.names ↔ ¬ a.ClearOfSentinels ∧ ¬ b.ClearOfSentinels)) := by
  by_cases ba : a.BlankFingerprint <;> by_cases bb : b.BlankFingerprint
  · simp [filed_of_blank ba, filed_of_blank bb, ClearOfSentinels, ba, bb]
  · simp only [filed_of_blank ba, filed_of_named nb bb, ClearOfSentinels, ba, bb, not_true_eq_false,
      false_and, not_false_eq_true, true_and, true_or, true_implies, not_not]
    rw [eq_comm (b := b.names)]
    exact iff_comm
  · simp only [filed_of_named na ba, filed_of_blank bb, ClearOfSentinels, ba, bb, not_true_eq_false,
      false_and, not_false_eq_true, true_and, or_true, true_implies, not_not, and_true]
    exact iff_comm
  · simp [filed_of_named na ba, filed_of_named nb bb, ba, bb]

/-- A named alert and an invalid one are filed apart exactly when the names do not read as the fallback. -/
theorem filed_ne_mixed (na : a.Named) (nb : ¬ b.Named) : a.filed h ≠ b.filed h ↔ ApartFromFallback h a b := by
  by_cases ba : a.BlankFingerprint <;> by_cases bb : b.BlankFingerprint
  · simp [filed_of_blank ba, filed_of_blank bb, ApartFromFallback, ClearOfSentinels, ba, bb]
  · simp [filed_of_blank ba, filed_of_unnamed nb bb, ApartFromFallback, ba, bb, eq_comm]
  · simp [filed_of_named na ba, filed_of_blank bb, ApartFromFallback, ClearOfSentinels, ba, bb]
  · simp [filed_of_named na ba, filed_of_unnamed nb bb, ApartFromFallback, ba, bb]

/-- Two invalid alerts are filed together exactly when they should be. -/
theorem filed_iff_unnamed (na : ¬ a.Named) (nb : ¬ b.Named) :
    (a.filed h = b.filed h ↔ a.trueFingerprint h = b.trueFingerprint h) ↔
      (¬ a.BlankFingerprint → ¬ b.BlankFingerprint →
        Text.strip (a.fingerprint h) = Text.strip (b.fingerprint h) → a.fingerprint h = b.fingerprint h) ∧
      (a.BlankFingerprint → b.BlankFingerprint →
        labelHash h a.sourceId a.labels = labelHash h b.sourceId b.labels) ∧
      (a.BlankFingerprint → ¬ b.BlankFingerprint →
        (Text.strip (b.fingerprint h) = "__missing__" ↔ labelHash h a.sourceId a.labels = b.fingerprint h)) ∧
      (b.BlankFingerprint → ¬ a.BlankFingerprint →
        (Text.strip (a.fingerprint h) = "__missing__" ↔
          labelHash h b.sourceId b.labels = a.fingerprint h)) := by
  by_cases ba : a.BlankFingerprint <;> by_cases bb : b.BlankFingerprint
  · simp [filed_of_blank ba, filed_of_blank bb, trueFingerprint_of_blank ba,
      trueFingerprint_of_blank bb, ba, bb]
  · simp [filed_of_blank ba, filed_of_unnamed nb bb, trueFingerprint_of_blank ba,
      trueFingerprint_of_not_blank bb, ba, bb, eq_comm]
  · simp [filed_of_unnamed na ba, filed_of_blank bb, trueFingerprint_of_not_blank ba,
      trueFingerprint_of_blank bb, ba, bb, eq_comm]
  · simp only [filed_of_unnamed na ba, filed_of_unnamed nb bb, trueFingerprint_of_not_blank ba,
      trueFingerprint_of_not_blank bb, ba, bb, Prod.mk.injEq, true_and, not_false_eq_true, true_implies,
      false_implies, and_true]
    refine ⟨fun same => same.1, fun same => ⟨same, fun equal => by rw [equal]⟩⟩

/-- For alerts of one source, filing does what it promises exactly for isolated pairs. -/
theorem filed_iff_isolated (source : a.sourceId = b.sourceId) :
    (a.filed h = b.filed h ↔ SameIncident h a b) ↔ Isolated h a b := by
  by_cases na : a.Named <;> by_cases nb : b.Named
  · rw [sameIncident_named na nb, and_iff_right source, filed_iff_named na nb]
    exact ⟨fun named => ⟨fun _ _ => named, ⟨fun _ h => absurd nb h, fun _ h => absurd na h⟩,
      fun h => absurd na h, fun h => absurd na h, fun h => absurd na h⟩, fun isolated => isolated.named na nb⟩
  · rw [iff_false_right (not_sameIncident_mixed fun same => nb (same.1 na)), ← ne_eq, filed_ne_mixed na nb]
    exact ⟨fun apart => ⟨fun _ h => absurd h nb, ⟨fun _ _ => apart, fun h => absurd h nb⟩,
      fun h => absurd na h, fun h => absurd na h, fun h => absurd na h⟩,
      fun isolated => isolated.mixed.1 na nb⟩
  · rw [iff_false_right (not_sameIncident_mixed fun same => na (same.2 nb)), ← ne_eq, ne_comm,
      filed_ne_mixed nb na]
    exact ⟨fun apart => ⟨fun h => absurd h na, ⟨fun h => absurd h na, fun _ _ => apart⟩,
      fun _ h => absurd nb h, fun _ h => absurd nb h, fun _ h => absurd nb h⟩,
      fun isolated => isolated.mixed.2 nb na⟩
  · rw [sameIncident_unnamed na nb, and_iff_right source, filed_iff_unnamed na nb]
    refine ⟨fun ⟨stripped, blanks, left, right⟩ => ?_, fun isolated => ?_⟩
    · exact ⟨fun h => absurd h na, ⟨fun h => absurd h na, fun h => absurd h nb⟩, fun _ _ => stripped,
        fun _ _ => blanks, fun _ _ => ⟨left, right⟩⟩
    · exact ⟨isolated.stripped na nb, isolated.blanks na nb, (isolated.oneBlank na nb).1,
        (isolated.oneBlank na nb).2⟩

end Pairs

/-- Two identities are equal exactly for alerts that belong to one incident, if and only if the
alerts have different sources or are isolated. -/
theorem identity_isolates_iff {h : Hashing} {a b : IdentifiedAlert} {i j : IncidentIdentity}
    (hi : a.identity h = some i) (hj : b.identity h = some j) (free : CollisionFree h a b) :
    (i.key = j.key ↔ SameIncident h a b) ↔ (a.sourceId = b.sourceId → Isolated h a b) := by
  rw [identity_key_eq_iff hi hj free]
  by_cases source : a.sourceId = b.sourceId
  · rw [and_iff_right source, filed_iff_isolated source]
    exact ⟨fun isolated _ => isolated, fun isolated => isolated source⟩
  · have never : ¬ SameIncident h a b := fun same => source same.1
    simp [source, never]

/-! ## Recorded digests -/

/-- An alert of source `1`. -/
def sampleAlert (folder alertName : Option String) (grafanaFingerprint team : String) : IdentifiedAlert :=
  ⟨1, folder, alertName, grafanaFingerprint, [("team", .str team)]⟩

/-- What SHA-256 gives for the byte strings of the examples. -/
def recordedDigests : List (List UInt8 × String) :=
  let parts (third fourth : String) := (encode ["2", (1 : Uuid).text, third, fourth]).getD []
  let labels (team : String) := Text.utf8 (JsonText.dumps ⟨false, true, fun _ => "0.0"⟩
    (.obj [("labels", .obj [("team", .str team)]), ("source_id", .str (1 : Uuid).text)]))
  [(parts "__invalid__" "__missing__", "23c06a176627136d6859cafcef264fe7763a69a8e77032717aa207bc24d17797"),
    (parts "COM-LX-BOA-01" "High CPU", "be5e8ed6e2bbf6159b429536dbe4201c73c88a329dca2fa4b42ccdc518d60455"),
    (parts "COM-LX-BOA-01" "High RAM", "4cb5f31f4fa4d8fdd76764360fb02e75295e462691a0a61cfb21e6c9fd18e9b0"),
    (labels "a", "d251917131fc12abb389aa8d9ca34a01541fbb89aa846b390a6d8bdd46556476"),
    (labels "b", "41de14c7c7c48d2cd445626ed635e374b11f00cbe035b2ad0dd48e2e92fe1b76")]

/-- Hashing that agrees with SHA-256 on the recorded byte strings. -/
def recordedHashing : Hashing where
  hexdigest b := ((recordedDigests.find? fun e => e.1 = b).map Prod.snd).getD
    "0000000000000000000000000000000000000000000000000000000000000000"
  floatText _ := "0.0"
  digits := by
    have plain : ∀ {s : String},
      (s.toList.length = 64 && s.toList.all fun c => c ∈ "0123456789abcdef".toList) = true →
        s.toList.length = 64 ∧ ∀ c ∈ s.toList, c ∈ "0123456789abcdef".toList := by simp
    have recorded : ∀ e ∈ recordedDigests,
        (e.2.toList.length = 64 && e.2.toList.all fun c => c ∈ "0123456789abcdef".toList) = true := by decide
    intro b
    cases hf : recordedDigests.find? fun e => e.1 = b with
    | none =>
      simp only [Option.map_none, Option.getD_none]
      exact plain (by decide)
    | some e => exact plain (recorded e (List.mem_of_find?_eq_some hf))

instance (h : Hashing) (a b : IdentifiedAlert) : Decidable (SameIncident h a b) := by
  unfold SameIncident; infer_instance

/-- Two invalid alerts with blank fingerprints and different labels share one identity. -/
theorem blank_fingerprints_merge : ∃ i j,
    (sampleAlert none none " " "a").identity recordedHashing = some i ∧
    (sampleAlert none none " " "b").identity recordedHashing = some j ∧ i.key = j.key ∧
    ¬ SameIncident recordedHashing (sampleAlert none none " " "a") (sampleAlert none none " " "b") := by
  have keys : (((sampleAlert none none " " "a").identity recordedHashing).map IncidentIdentity.key =
      some "23c06a176627136d6859cafcef264fe7763a69a8e77032717aa207bc24d17797") ∧
      (((sampleAlert none none " " "b").identity recordedHashing).map IncidentIdentity.key =
      some "23c06a176627136d6859cafcef264fe7763a69a8e77032717aa207bc24d17797") := by decide
  obtain ⟨i, hi, hikey⟩ := Option.map_eq_some_iff.1 keys.1
  obtain ⟨j, hj, hjkey⟩ := Option.map_eq_some_iff.1 keys.2
  exact ⟨i, j, hi, hj, hikey.trans hjkey.symm, by decide⟩

/-- Two valid alerts of one folder under two names are kept apart. -/
theorem identity_isolates_named : ∃ i j,
    (sampleAlert (some "COM-LX-BOA-01") (some "High CPU") "fp" "a").identity recordedHashing = some i ∧
    (sampleAlert (some "COM-LX-BOA-01") (some "High RAM") "fp" "b").identity recordedHashing = some j ∧
    (i.key = j.key ↔
      SameIncident recordedHashing (sampleAlert (some "COM-LX-BOA-01") (some "High CPU") "fp" "a")
      (sampleAlert (some "COM-LX-BOA-01") (some "High RAM") "fp" "b")) := by
  have some_i : ((sampleAlert (some "COM-LX-BOA-01") (some "High CPU") "fp" "a").identity
      recordedHashing).isSome = true := by decide
  have some_j : ((sampleAlert (some "COM-LX-BOA-01") (some "High RAM") "fp" "b").identity
      recordedHashing).isSome = true := by decide
  obtain ⟨i, hi⟩ := Option.isSome_iff_exists.1 some_i
  obtain ⟨j, hj⟩ := Option.isSome_iff_exists.1 some_j
  refine ⟨i, j, hi, hj, (identity_isolates_iff hi hj ?_).2 fun _ => ?_⟩
  · -- the two digests differ
    intro x y hx hy same
    have differ : (encode ["2", (1 : Uuid).text, "COM-LX-BOA-01", "High CPU"]).map recordedHashing.hexdigest ≠
        (encode ["2", (1 : Uuid).text, "COM-LX-BOA-01", "High RAM"]).map
          recordedHashing.hexdigest := by decide
    refine absurd ?_ differ
    have first : encode ["2", (1 : Uuid).text, "COM-LX-BOA-01", "High CPU"] = some x := by
      rw [← hx]; decide
    have second : encode ["2", (1 : Uuid).text, "COM-LX-BOA-01", "High RAM"] = some y := by
      rw [← hy]; decide
    rw [first, second, Option.map_some, Option.map_some, same]
  · have na : (sampleAlert (some "COM-LX-BOA-01") (some "High CPU") "fp" "a").Named := by decide
    have nb : (sampleAlert (some "COM-LX-BOA-01") (some "High RAM") "fp" "b").Named := by decide
    have given : ¬ ((sampleAlert (some "COM-LX-BOA-01") (some "High CPU") "fp" "a").BlankFingerprint ∨
      (sampleAlert (some "COM-LX-BOA-01") (some "High RAM") "fp" "b").BlankFingerprint) := by decide
    exact ⟨fun _ _ blank => absurd blank given, ⟨fun _ h => absurd nb h, fun _ h => absurd na h⟩,
      fun h => absurd na h, fun h => absurd na h, fun h => absurd na h⟩

end SreAgent.Alerts
