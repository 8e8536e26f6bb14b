import SreAgent.Ingestion.Documents
import SreAgent.Ingestion.Outboxed

/-!
# How the parsing of a body ends

`parse_grafana_body` returns a webhook or raises one of its own two exceptions, except where a
timestamp of an alert names an instant outside of the calendar: `astimezone` raises `OverflowError`
there, which the validation library passes on (`parse_two_ways_iff`).
-/

namespace SreAgent.Ingestion
open Base Trace

/-- How `parse_grafana_body` ends. -/
inductive Parsed where
  | returned (webhook : GrafanaWebhook)
  | payloadTooLarge
  | payloadInvalid
  | raised (e : PyError)

/-- `parse_grafana_body`, with its exceptions told apart. -/
def parseBody (b : Backend) (rawBody : List UInt8) (maxBytes : Int) : Parsed :=
  if maxBytes < rawBody.length then .payloadTooLarge
  else
    match b.readJson rawBody with
    | none => .payloadInvalid
    | some document =>
      match GrafanaWebhook.validate b document with
      | .valid webhook => .returned webhook
      | .invalid => .payloadInvalid
      | .raised e => .raised e

/-- What a caller that does not tell the two exceptions apart sees. -/
def Parsed.outcome : Parsed → Outcome PyError GrafanaWebhook
  | .returned webhook => .valid webhook
  | .payloadTooLarge | .payloadInvalid => .invalid
  | .raised e => .raised e

/-- The parsing the ingestion runs. -/
theorem outcome_parseBody (b : Backend) (rawBody : List UInt8) (maxBytes : Nat) :
    (parseBody b rawBody maxBytes).outcome = parseGrafanaBody b rawBody maxBytes := by
  unfold parseBody parseGrafanaBody
  by_cases large : maxBytes < rawBody.length
  · rw [if_pos large, if_pos (by omega)]
    rfl
  · rw [if_neg large, if_neg (by omega)]
    cases b.readJson rawBody with
    | none => rfl
    | some document =>
      cases validated : GrafanaWebhook.validate b document <;> simp [validated, Parsed.outcome]

/-- A timestamp is the instant a field of an item names, as an aware datetime in UTC. -/
def NormalizedFrom (b : Backend) (item : Json) (byAlias byName : String) (t : Timestamp) : Prop :=
  ∃ d v offset, ∃ read utc : Datetime, item = .obj d ∧ aliased d byAlias byName = some v ∧
    b.readDatetime v = some read ∧
    read.offset = some offset ∧ utc.offset = some 0 ∧ utc.clock = read.clock - offset ∧ t = utc.clock

/-- The parsing ends in a webhook of normalized timestamps, or in one of its two ways to fail. -/
structure FailsTwoWays (b : Backend) (rawBody : List UInt8) (maxBytes : Int) : Prop where
  tooLarge : parseBody b rawBody maxBytes = .payloadTooLarge ↔ maxBytes < rawBody.length
  escapes : ∀ e, parseBody b rawBody maxBytes ≠ .raised e
  normalized : ∀ webhook, parseBody b rawBody maxBytes = .returned webhook →
    ∃ d items, b.readJson rawBody = some (.obj d) ∧ JsonObject.get? d "alerts" = some (.arr items) ∧
      List.Forall₂ (fun item alert => NormalizedFrom b item "startsAt" "starts_at" alert.startsAt ∧
        NormalizedFrom b item "endsAt" "ends_at" alert.endsAt) items webhook.alerts

/-- A value is read as an aware datetime whose instant has no place in the calendar. -/
def OffCalendar (b : Backend) (v : Json) : Prop :=
  ∃ (read : Datetime) (offset : Int), b.readDatetime v = some read ∧ read.offset = some offset ∧
    ¬ (0 ≤ read.clock - offset ∧ read.clock - offset < 315537897600000000)

/-- An alert of a document has a timestamp without an instant. -/
def HasOffCalendar (b : Backend) (document : Json) : Prop :=
  ∃ d items item v, document = .obj d ∧ JsonObject.get? d "alerts" = some (.arr items) ∧ .obj item ∈ items ∧
    (aliased item "startsAt" "starts_at" = some v ∨ aliased item "endsAt" "ends_at" = some v) ∧
      OffCalendar b v

section Fields

variable {b : Backend}

/-- A timestamp raises exactly if it leaves the calendar in UTC. -/
theorem timestampField_raises {v : Option Json} :
    (timestampField b v).Raises ↔ ∃ w, v = some w ∧ OffCalendar b w := by
  cases v with
  | none => simp [timestampField]
  | some w =>
    simp only [timestampField, Option.some.injEq, exists_eq_left', OffCalendar]
    cases b.readDatetime w with
    | none => simp
    | some read =>
      cases known : read.offset with
      | none => simp [requireAwareUtc, known]
      | some offset =>
        simp only [requireAwareUtc, known]
        split
        · next inside =>
          refine iff_of_false (Outcome.raises_valid _) ?_
          rintro ⟨_, _, same, offsets, outside⟩
          cases same
          cases known.symm.trans offsets
          exact outside inside
        · next outside => exact iff_of_true (Outcome.raises_raised _) ⟨read, offset, rfl, known, outside⟩

/-- A timestamp that is taken is in UTC. -/
theorem timestampField_valid {v : Option Json} {t : Timestamp} (h : timestampField b v = .valid t) :
    ∃ w offset, ∃ read utc : Datetime, v = some w ∧ b.readDatetime w = some read ∧ read.offset = some offset ∧
      utc.offset = some 0 ∧ utc.clock = read.clock - offset ∧ t = utc.clock := by
  unfold timestampField at h
  split at h
  · cases h
  · next w =>
    split at h
    · cases h
    · next read found =>
      unfold requireAwareUtc at h
      split at h
      · cases h
      · next offset known =>
        split at h
        · next inside =>
          cases h
          exact ⟨w, offset, read, ⟨read.clock - offset, some 0, inside⟩, rfl, found, known, rfl, rfl, rfl⟩
        · cases h

/-! ## The other fields -/

theorem statusField_total (v : Option Json) : ¬ (statusField v).Raises := by
  unfold statusField
  split
  · split
    · simp
    · split <;> simp
  · simp

theorem objectField_total (v : Option Json) : ¬ (objectField v).Raises := by
  unfold objectField
  split <;> simp

theorem textsField_total (v : Option Json) : ¬ (textsField v).Raises := by
  unfold textsField
  split
  · split <;> simp
  · simp

theorem textField_total (v : Option Json) : ¬ (textField v).Raises := by
  unfold textField
  split <;> simp

theorem urlField_total (v : Option Json) : ¬ (urlField b v).Raises := by
  unfold urlField
  split <;> simp

theorem emptyOrUrl_total (v : Option Json) : ¬ (emptyOrUrl b v).Raises := by
  unfold emptyOrUrl
  split
  · simp
  · apply urlField_total

theorem countField_total (v : Option Json) : ¬ (countField b v).Raises := by
  unfold countField
  split
  · simp
  · simp
  · split
    · simp
    · split <;> simp

/-- An optional field does not raise if the field does not. -/
theorem optional_total {validate : Option Json → Outcome PyError Unit} (total : ∀ v, ¬ (validate v).Raises)
    (v : Option Json) :
    ¬ (optional validate v).Raises := by
  unfold optional
  split
  · simp
  · simp
  · apply total

theorem optionalText_total (v : Option Json) : ¬ (optionalText v).Raises :=
  optional_total (fun v => by simpa using textField_total v) v

theorem optionalTexts_total (v : Option Json) : ¬ (optionalTexts v).Raises :=
  optional_total (fun v => by simpa using textsField_total v) v

end Fields

/-! ## The document -/

section Document

variable {b : Backend} {d : JsonObject}

/-- An alert raises for its timestamps only. -/
theorem alert_raises : (GrafanaAlert.validate b (.obj d)).Raises ↔
    ∃ v, (aliased d "startsAt" "starts_at" = some v ∨ aliased d "endsAt" "ends_at" = some v) ∧
      OffCalendar b v := by
  have links : ∀ v : Option Json, ¬ (optional (emptyOrUrl b) v).Raises := optional_total emptyOrUrl_total
  have urls : ∀ v : Option Json, ¬ (optional (urlField b) v).Raises := optional_total urlField_total
  simp only [GrafanaAlert.validate, Outcome.raises_map, Outcome.raises_both, statusField_total,
    objectField_total,
    textsField_total, urlField_total, textField_total, links, urls, timestampField_raises, false_or,
    or_false, or_and_right, exists_or]

/-- The alerts raise exactly if one of them does. -/
theorem alertsField_raises {v : Option Json} : (alertsField b v).Raises ↔
    ∃ items, v = some (.arr items) ∧ ∃ item ∈ items, (GrafanaAlert.validate b item).Raises := by
  unfold alertsField
  split
  · next items =>
    have each : (Outcome.all (items.map (GrafanaAlert.validate b))).Raises ↔
        ∃ item ∈ items, (GrafanaAlert.validate b item).Raises := by simp
    simp only [Option.some.injEq, Json.arr.injEq, exists_eq_left', ← each]
    cases Outcome.all (items.map (GrafanaAlert.validate b)) with
    | valid alerts =>
      simp only [Outcome.andThen, Outcome.raises_valid, iff_false]
      split <;> simp
    | invalid => simp [Outcome.andThen]
    | raised e => simp [Outcome.andThen]
  · next other =>
    refine iff_of_false Outcome.raises_invalid ?_
    rintro ⟨items, rfl, -⟩
    exact other items rfl

/-- The validation raises for the timestamps of the alerts only. -/
theorem webhook_raises {document : Json} : (GrafanaWebhook.validate b document).Raises ↔
      HasOffCalendar b document := by
  cases document with
  | obj d =>
    have orgId : ∀ v : Option Json, ¬ (optional (fun v => .check ((v.bind b.readInt).isSome)) v).Raises :=
      optional_total fun v => Outcome.raises_check _
    have urls : ∀ v : Option Json, ¬ (optional (urlField b) v).Raises := optional_total urlField_total
    simp only [GrafanaWebhook.validate, Outcome.raises_map, Outcome.raises_both, alertsField_raises,
      countField_total,
      statusField_total, optionalText_total, optionalTexts_total, orgId, urls, or_false]
    constructor
    · rintro ⟨items, listed, item, hitem, raises⟩
      cases item with
      | obj item =>
        obtain ⟨v, named, off⟩ := alert_raises.1 raises
        exact ⟨d, items, item, v, rfl, listed, hitem, named, off⟩
      | null | bool _ | int _ | float _ | str _ | arr _ => exact absurd raises Outcome.raises_invalid
    · rintro ⟨_, items, item, v, same, listed, hitem, named, off⟩
      cases same
      exact ⟨items, listed, .obj item, hitem, alert_raises.2 ⟨v, named, off⟩⟩
  | null | bool _ | int _ | float _ | str _ | arr _ =>
    refine iff_of_false Outcome.raises_invalid ?_
    rintro ⟨_, _, _, _, same, -⟩
    cases same

/-- An alert that is taken has its timestamps from the item. -/
theorem alert_normalized {item : Json} {alert : GrafanaAlert}
    (h : GrafanaAlert.validate b item = .valid alert) :
    NormalizedFrom b item "startsAt" "starts_at" alert.startsAt ∧
      NormalizedFrom b item "endsAt" "ends_at" alert.endsAt := by
  match item with
  | .obj d =>
    simp only [GrafanaAlert.validate, Outcome.map_eq_valid, Outcome.both_eq_valid] at h
    obtain ⟨fields, ⟨-, -, -, starts, ends, -⟩, rfl⟩ := h
    obtain ⟨v, offset, read, utc, named, rest⟩ := timestampField_valid starts
    obtain ⟨v', offset', read', utc', named', rest'⟩ := timestampField_valid ends
    exact ⟨⟨d, v, offset, read, utc, rfl, named, rest⟩, ⟨d, v', offset', read', utc', rfl, named', rest'⟩⟩
  | .null | .bool _ | .int _ | .float _ | .str _ | .arr _ => cases h

end Document

/-! ## The body -/

section Body

variable {b : Backend} {rawBody : List UInt8} {maxBytes : Int}

/-- A body is too large exactly if it has more bytes than allowed. -/
theorem parseBody_tooLarge : parseBody b rawBody maxBytes = .payloadTooLarge ↔ maxBytes < rawBody.length := by
  unfold parseBody
  split
  · next large => exact iff_of_true rfl large
  · next short =>
    refine iff_of_false ?_ short
    split
    · nofun
    · split <;> nofun

/-- What the validation of a body that is read comes to. -/
theorem parseBody_validated {result : Outcome PyError GrafanaWebhook} (taken : result ≠ .invalid) :
    (parseBody b rawBody maxBytes).outcome = result ↔ rawBody.length ≤ maxBytes ∧
      ∃ document, b.readJson rawBody = some document ∧ GrafanaWebhook.validate b document = result := by
  unfold parseBody
  split
  · next large =>
    refine iff_of_false taken.symm ?_
    rintro ⟨short, -⟩
    omega
  · next short =>
    rw [and_iff_right (not_lt.1 short)]
    split
    · next unread =>
      refine iff_of_false taken.symm ?_
      rintro ⟨document, read, -⟩
      cases unread.symm.trans read
    · next document read =>
      simp only [read, Option.some.injEq, exists_eq_left']
      cases validated : GrafanaWebhook.validate b document <;> simp [Parsed.outcome]

end Body

/-- The parsing ends in its two ways or in a webhook of normalized timestamps, unless an alert of a
body that is short enough names an instant outside of the calendar. -/
theorem parse_two_ways_iff (b : Backend) (rawBody : List UInt8) (maxBytes : Int) :
    FailsTwoWays b rawBody maxBytes ↔
    (rawBody.length ≤ maxBytes → ∀ document, b.readJson rawBody = some document →
      ¬ HasOffCalendar b document) := by
  constructor
  · intro ways short document read off
    obtain ⟨e, raises⟩ := webhook_raises.2 off
    have raised := (parseBody_validated (by simp)).2 ⟨short, document, read, raises⟩
    cases ends : parseBody b rawBody maxBytes with
    | raised e' => exact ways.escapes e' ends
    | returned webhook => rw [ends] at raised; cases raised
    | payloadTooLarge => rw [ends] at raised; cases raised
    | payloadInvalid => rw [ends] at raised; cases raised
  · intro calendar
    refine ⟨parseBody_tooLarge, fun e raised => ?_, fun webhook returned => ?_⟩
    · have outcome : (parseBody b rawBody maxBytes).outcome = .raised e := by rw [raised]; rfl
      obtain ⟨short, document, read, validated⟩ := (parseBody_validated (by simp)).1 outcome
      exact calendar short document read (webhook_raises.1 ⟨e, validated⟩)
    · have outcome : (parseBody b rawBody maxBytes).outcome = .valid webhook := by rw [returned]; rfl
      obtain ⟨-, document, read, validated⟩ := (parseBody_validated (by simp)).1 outcome
      obtain ⟨d, items, rfl, listed, each⟩ := GrafanaWebhook.alerts_of_validate validated
      exact ⟨d, items, read, listed, each.imp fun _ _ => alert_normalized⟩

/-! ## The first hour -/

theorem halfPastMidnight : 0 ≤ (1800000000 : Int) ∧ (1800000000 : Int) < 315537897600000000 := by decide

/-- A backend that reads the offset of one hour as well. -/
def offsetBackend : Backend :=
  { sampleBackend with
    readDatetime
      | .str s => if s = "0001-01-01T00:30:00+01:00" then some ⟨1800000000, some 3600000000, halfPastMidnight⟩
        else sampleBackend.readDatetime (.str s)
      | v => sampleBackend.readDatetime v }

/-- A body with one alert that starts in the first hour of the calendar, one hour ahead of UTC. -/
def firstHourBody : List UInt8 :=
  (JsonText.render ⟨true, true, fun _ => ""⟩
    (.obj [("status", .str "firing"), ("alerts", .arr [.obj [("status", .str "firing"),
    ("labels", .obj []), ("annotations", .obj []), ("startsAt", .str "0001-01-01T00:30:00+01:00"),
    ("endsAt", .str (IsoTime.text 0)), ("values", .obj []), ("generatorURL", .str "http://grafana"),
    ("fingerprint", .str "a")]])])).flatMap String.utf8EncodeChar

/-- An `OverflowError` escapes. -/
theorem first_hour_escapes : parseBody offsetBackend firstHourBody 1048576 = .raised .overflowError ∧
    ¬ FailsTwoWays offsetBackend firstHourBody 1048576 := by
  have escapes : (match parseBody offsetBackend firstHourBody 1048576 with
      | .raised e => some e
      | _ => none) = some PyError.overflowError := by decide +kernel
  have raised : parseBody offsetBackend firstHourBody 1048576 = .raised .overflowError := by
    split at escapes
    · next e ends =>
      cases escapes
      exact ends
    · cases escapes
  exact ⟨raised, fun ways => ways.escapes _ raised⟩

end SreAgent.Ingestion
