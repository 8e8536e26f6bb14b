import SreAgent.Base.JsonRoundTrip

/-!
# The RCA job message

`RcaJobMessage` is written and read by two packages with the same code: the backend validates the
payload of an outbox event and encodes it, the worker decodes the bytes. `schema_version` and
`attempt` admit one value, so a message is its three identifiers, and every message survives the
way from a payload to bytes and back (`fromBytes_toBytes`).
-/

namespace SreAgent.Pubsub
open Base

/-- `MAX_RCA_JOB_MESSAGE_BYTES`. -/
def maxRcaJobMessageBytes : Nat := 1024

/-- The decoded message; `schema_version` and `attempt` can only be `1`. -/
structure RcaJobMessage where
  workerJobId : Uuid
  rcaRunId : Uuid
  incidentId : Uuid
  deriving DecidableEq

/-- What a `UUID` field accepts of a JSON value. -/
def uuidField : Json → Option Uuid
  | .str s => Uuid.parse s
  | _ => none

/-- The item a field reads: under its alias, or else under its name (`populate_by_name`). -/
def fieldItem (d : JsonObject) (byAlias byName : String) : Option (String × Json) :=
  match JsonObject.get? d byAlias with
  | some v => some (byAlias, v)
  | none => (JsonObject.get? d byName).map fun v => (byName, v)

namespace RcaJobMessage

/-- `model_validate` of an object: every field present and valid, and no other key. -/
def validate (d : JsonObject) : Option RcaJobMessage := do
  let schemaVersion ← fieldItem d "schemaVersion" "schema_version"
  let workerJobId ← fieldItem d "workerJobId" "worker_job_id"
  let rcaRunId ← fieldItem d "rcaRunId" "rca_run_id"
  let incidentId ← fieldItem d "incidentId" "incident_id"
  let attempt ← fieldItem d "attempt" "attempt"
  let used := [schemaVersion.1, workerJobId.1, rcaRunId.1, incidentId.1, attempt.1]
  if literalOne schemaVersion.2 = false ∨ literalOne attempt.2 = false ∨ ∃ k ∈ JsonObject.keys d, k ∉ used
    then none
  else
    let job ← uuidField workerJobId.2
    let run ← uuidField rcaRunId.2
    let incident ← uuidField incidentId.2
    some ⟨job, run, incident⟩

/-- `from_mapping`. -/
def fromMapping : Json → Option RcaJobMessage
  | .obj d => validate d
  | _ => none

/-- `model_dump(by_alias=True, mode="json")`, its keys in ascending order. -/
def dump (m : RcaJobMessage) : JsonObject :=
  [("attempt", .int 1), ("incidentId", .str m.incidentId.text), ("rcaRunId", .str m.rcaRunId.text),
    ("schemaVersion", .int 1), ("workerJobId", .str m.workerJobId.text)]

/-- How `to_bytes` writes; a message holds no float. -/
def options : JsonText.Options := ⟨true, true, fun _ => ""⟩

/-- `to_bytes`. -/
def toBytes (m : RcaJobMessage) : List UInt8 := Text.utf8 (JsonText.dumps options (.obj m.dump))

/-- `from_bytes`; a text with a surrogate is refused. -/
def fromBytes (i : JsonParse.Interpreter) (payload : List UInt8) : Option RcaJobMessage :=
  if maxRcaJobMessageBytes < payload.length then none
  else do
    let text ← Utf.decodeUtf8 false payload
    match JsonParse.parse i text with
    | .ok v => v.text?.bind fromMapping
    | .error _ => none

/-! ## Messages survive -/

theorem validate_dump (m : RcaJobMessage) : validate m.dump = some m := by
  simp [validate, dump, fieldItem, JsonObject.get?, JsonObject.keys, literalOne, uuidField, Uuid.parse_text]

/-- The canonical document of a message validates to the message. -/
theorem fromMapping_dump (m : RcaJobMessage) : fromMapping (.obj m.dump) = some m := validate_dump m

/-- Limits under which a message can be read. -/
def Readable (i : JsonParse.Interpreter) : Prop := 1 ≤ i.maxDigits ∧ 1 ≤ i.maxDepth

theorem keys_dump (m : RcaJobMessage) :
    JsonObject.keys m.dump = ["attempt", "incidentId", "rcaRunId", "schemaVersion", "workerJobId"] := rfl

theorem canonical_dump {i : JsonParse.Interpreter} (h : Readable i) (m : RcaJobMessage) :
    JsonParse.Canonical i i.maxDepth (.obj m.dump) := by
  obtain ⟨digits, depth⟩ := h
  obtain ⟨d, hd⟩ : ∃ d, i.maxDepth = d + 1 := ⟨i.maxDepth - 1, by omega⟩
  have one : JsonParse.digitCount 1 ≤ i.maxDigits := digits
  rw [hd]
  refine ⟨by rw [keys_dump]; decide, ?_⟩
  simp only [dump, JsonParse.CanonicalItems, JsonParse.Canonical, one, and_true]

/-! ## The size of a message -/

theorem hexChar_plain {d : Nat} (h : d < 16) : JsonText.escapeChar true (hexChar d) = [hexChar d] := by
  have all : ∀ d < 16, JsonText.escapeChar true (hexChar d) = [hexChar d] := by decide
  exact all d h

/-- The characters of an identifier need no escape. -/
theorem text_plain (u : Uuid) : ∀ c ∈ u.text.toList, JsonText.escapeChar true c = [c] := by
  have hex : ∀ c ∈ u.hex, JsonText.escapeChar true c = [c] := by
    intro c hc
    obtain ⟨d, hd, rfl⟩ := List.mem_map.1 hc
    exact hexChar_plain (hexDigits_lt hd)
  have hyphen : JsonText.escapeChar true '-' = ['-'] := by decide
  intro c hc
  simp only [Uuid.text, String.toList_ofList, Uuid.group, List.mem_append, List.mem_cons] at hc
  rcases hc with hc | rfl | hc | rfl | hc | rfl | hc | rfl | hc
  · exact hex c (List.mem_of_mem_take hc)
  · exact hyphen
  · exact hex c (List.mem_of_mem_drop (List.mem_of_mem_take hc))
  · exact hyphen
  · exact hex c (List.mem_of_mem_drop (List.mem_of_mem_take hc))
  · exact hyphen
  · exact hex c (List.mem_of_mem_drop (List.mem_of_mem_take hc))
  · exact hyphen
  · exact hex c (List.mem_of_mem_drop hc)

theorem flatMap_plain {cs : List Char} (h : ∀ c ∈ cs, JsonText.escapeChar true c = [c]) :
    cs.flatMap (JsonText.escapeChar true) = cs := by
  induction cs with
  | nil => rfl
  | cons c cs ih =>
    rw [List.flatMap_cons, h c List.mem_cons_self, ih fun d hd => h d (List.mem_cons_of_mem _ hd),
      List.singleton_append]

/-- The literal of an identifier takes 38 characters. -/
theorem idText_length (u : Uuid) : (JsonText.stringText true u.text).length = 38 := by
  rw [JsonText.stringText, flatMap_plain (text_plain u)]
  simp [Uuid.text, Uuid.group_length (Uuid.hex_length u)]

theorem render_dump_length (m : RcaJobMessage) : (JsonText.render options (.obj m.dump)).length = 186 := by
  have ascending : (JsonObject.keys m.dump).Pairwise (· < ·) := by rw [keys_dump]; decide
  rw [JsonText.render, JsonParse.order_renderItems options fun _ => ascending]
  simp only [dump, JsonText.renderItems, JsonText.render, List.map_cons, List.map_nil, JsonText.itemText,
    JsonParse.commaJoin_cons_cons, JsonParse.commaJoin_singleton, List.length_append, List.length_cons,
    List.length_nil, options, idText_length]
  decide

/-- A character is encoded in at most four bytes. -/
theorem utf8_length_le (s : String) : (Text.utf8 s).length ≤ 4 * s.toList.length := by
  rw [Utf.utf8_eq]
  induction s.toList with
  | nil => exact Nat.le_refl _
  | cons c cs ih =>
    have : (String.utf8EncodeChar c).length ≤ 4 := by
      rw [String.length_utf8EncodeChar]
      exact Char.utf8Size_le_four c
    simp only [List.flatMap_cons, List.length_append, List.length_cons]
    omega

theorem toBytes_length (m : RcaJobMessage) : m.toBytes.length ≤ maxRcaJobMessageBytes := by
  have := utf8_length_le (JsonText.dumps options (.obj m.dump))
  rw [JsonText.dumps, String.toList_ofList, render_dump_length] at this
  exact this.trans (by decide)

/-- Every message reads back from its bytes. -/
theorem fromBytes_toBytes {i : JsonParse.Interpreter} (h : Readable i) (m : RcaJobMessage) :
    fromBytes i m.toBytes = some m := by
  rw [fromBytes, if_neg (Nat.not_lt.2 (toBytes_length m)), toBytes, Utf.decodeUtf8_utf8, JsonText.dumps,
    String.toList_ofList]
  simp only [Option.bind_eq_bind, Option.bind_some, JsonParse.parse_render options i (canonical_dump h m),
    Json.text?_coded]
  exact fromMapping_dump m

/-- The bytes determine the message. -/
theorem toBytes_injective {m m' : RcaJobMessage} (h : m.toBytes = m'.toBytes) : m = m' := by
  have readable : Readable ⟨1, 1, fun _ => .nan⟩ := ⟨Nat.le_refl 1, Nat.le_refl 1⟩
  have := fromBytes_toBytes readable m
  rw [h, fromBytes_toBytes readable m'] at this
  exact (Option.some.inj this).symm

end RcaJobMessage

end SreAgent.Pubsub
