import SreAgent.Base.JsonPart
import SreAgent.Ingestion.Execute

/-!
# What an accepted body holds

Labels, annotations and values of an accepted alert are parts of the document, so they can be stored
where the document can, and have an identity where the document is short. `json.dumps` writes the
frozen labels exactly if there is no object in a label, and then they are the labels of the alert.
-/

namespace SreAgent.Ingestion
open Base Alerts Trace

variable {b : Backend} {alert : GrafanaAlert} {webhook : GrafanaWebhook} {document : Json}

/-! ## Parts -/

theorem objectField_eq_valid {x : Option Json} {d : JsonObject} : objectField x = .valid d ↔
      x = some (.obj d) := by
  rw [objectField.eq_def]
  split <;> simp_all

theorem textField_eq_valid {x : Option Json} {s : String} : textField x = .valid s ↔ x = some (.str s) := by
  rw [textField.eq_def]
  split <;> simp_all

/-- An object of texts is the object of the texts that are read of it. -/
theorem textFields_of_mapM {d : JsonObject} {texts : List (String × String)}
    (h : d.mapM textItem = some texts) :
    textFields texts = d := by
  induction d generalizing texts with
  | nil =>
    cases h
    rfl
  | cons item rest ih =>
    rw [List.mapM_cons] at h
    obtain ⟨⟨key, s⟩, hitem, h⟩ := Option.bind_eq_some_iff.1 h
    obtain ⟨others, hrest, h⟩ := Option.bind_eq_some_iff.1 h
    cases h
    have here : (key, Json.str s) = item := by
      unfold textItem at hitem
      split at hitem
      · cases hitem
        rfl
      · cases hitem
    rw [textFields, List.map_cons, ← textFields, ih hrest]
    exact congrArg (· :: rest) here

/-- Texts that are read of a field are its object. -/
theorem part_of_textsField {x : Option Json} {texts : List (String × String)}
    (h : textsField x = .valid texts) :
    x = some (.obj (textFields texts)) := by
  unfold textsField at h
  split at h
  · next d =>
    split at h
    · next hd =>
      cases h
      rw [textFields_of_mapM hd]
    · cases h
  · cases h

/-- The value of a key is a part of the object. -/
theorem part_of_get? {d : JsonObject} {key : String} {v : Json} (h : JsonObject.get? d key = some v) :
    (Json.obj d).Part v :=
  .field (JsonObject.mem_of_get? h) .refl

/-- What is read of an alert. -/
structure GrafanaAlert.Within (alert : GrafanaAlert) (document : Json) : Prop where
  labels : document.Part (.obj alert.labels)
  annotations : document.Part (.obj (textFields alert.annotations))
  values : document.Part (.obj alert.values)
  fingerprint : document.Part (.str alert.fingerprint)

/-- What an alert holds stands in the document it was read from. -/
theorem GrafanaAlert.within_of_validate (h : GrafanaAlert.validate b document = .valid alert) :
    alert.Within document := by
  match document with
  | .obj d =>
    simp only [GrafanaAlert.validate, Outcome.map_eq_valid, Outcome.both_eq_valid] at h
    obtain ⟨fields, ⟨-, labels, annotations, -, -, values, -, fingerprint, -⟩, rfl⟩ := h
    exact ⟨part_of_get? (objectField_eq_valid.1 labels), part_of_get? (part_of_textsField annotations),
      part_of_get? (objectField_eq_valid.1 values), part_of_get? (textField_eq_valid.1 fingerprint)⟩
  | .null | .bool _ | .int _ | .float _ | .str _ | .arr _ => cases h

/-- An alert of a part is an alert of the document. -/
theorem GrafanaAlert.Within.trans {v : Json} (h : alert.Within v) (part : document.Part v) :
    alert.Within document :=
  ⟨part.trans h.labels, part.trans h.annotations, part.trans h.values, part.trans h.fingerprint⟩

/-- The alerts of an accepted document are the items of its `alerts`, one by one. -/
theorem GrafanaWebhook.alerts_of_validate (h : GrafanaWebhook.validate b document = .valid webhook) :
    ∃ d items, document = .obj d ∧ JsonObject.get? d "alerts" = some (.arr items) ∧
      List.Forall₂ (fun item alert => GrafanaAlert.validate b item = .valid alert) items webhook.alerts := by
  match document with
  | .obj d =>
    simp only [GrafanaWebhook.validate, Outcome.map_eq_valid, Outcome.both_eq_valid] at h
    obtain ⟨fields, ⟨alerts, -⟩, rfl⟩ := h
    unfold alertsField at alerts
    split at alerts
    · next items hitems =>
      obtain ⟨as, each, given⟩ := Outcome.andThen_eq_valid.1 alerts
      split at given
      · cases given
      · rw [Outcome.all_eq_valid, List.forall₂_map_left_iff] at each
        exact ⟨d, items, rfl, hitems, Outcome.valid.inj given ▸ each⟩
    · cases alerts
  | .null | .bool _ | .int _ | .float _ | .str _ | .arr _ => cases h

/-! ## What can be stored -/

/-- An array can be stored if each of its items can. -/
theorem storableItems_iff {items : List Json} : storableItems items = true ↔
      ∀ v ∈ items, storable v = true := by
  induction items with
  | nil => simp [storableItems]
  | cons v rest ih => simp [storableItems, ih]

/-- An object can be stored if each of its keys and values can. -/
theorem storableFields_iff {fields : JsonObject} :
    storableFields fields = true ↔ ∀ item ∈ fields, noNul item.1 = true ∧ storable item.2 = true := by
  induction fields with
  | nil => simp [storableFields]
  | cons field rest ih => simp [storableFields, ih, and_assoc]

/-- A part of what can be stored can be stored. -/
theorem storable_part {v w : Json} (h : storable v = true) (part : v.Part w) : storable w = true := by
  induction part with
  | refl => exact h
  | item mem _ ih => exact ih (storableItems_iff.1 h _ mem)
  | field mem _ ih => exact ih (storableFields_iff.1 h _ mem).2

/-- Whether an object can be stored does not depend on the order of its items. -/
theorem storableFields_perm {fields other : JsonObject} (perm : fields.Perm other)
    (h : storableFields other = true) :
    storableFields fields = true :=
  storableFields_iff.2 fun item hitem => storableFields_iff.1 h item (perm.mem_iff.1 hitem)

theorem mem_sortItems {α : Type} {items : List (String × α)} {item : String × α} :
    item ∈ JsonText.sortItems items ↔ item ∈ items :=
  (List.perm_insertionSort _ items).mem_iff

/-! ## Frozen labels -/

mutual

/-- There is no object in the value. -/
def objectFree : Json → Bool
  | .arr items => objectFreeItems items
  | .obj _ => false
  | _ => true

def objectFreeItems : List Json → Bool
  | [] => true
  | v :: rest => objectFree v && objectFreeItems rest

end

mutual

/-- `json.dumps` writes a frozen value without objects as the value itself, and no other one. -/
theorem dumps_deepFreeze : ∀ v : Json, dumpsFrozen (deepFreeze v) = if objectFree v then some v else none
  | .null | .bool _ | .int _ | .float _ | .str _ => rfl
  | .obj _ => rfl
  | .arr items => by
    rw [deepFreeze, dumpsFrozen, dumps_freezeItems items, objectFree]
    split <;> rfl

/-- `json.dumps` writes frozen items without objects as the items themselves. -/
theorem dumps_freezeItems : ∀ items : List Json, dumpsItems (freezeItems items) = if objectFreeItems items
    then some items else none
  | [] => rfl
  | v :: rest => by
    rw [freezeItems, dumpsItems, dumps_deepFreeze v, dumps_freezeItems rest, objectFreeItems]
    cases objectFree v <;> cases objectFreeItems rest <;> rfl

end

theorem freezeFields_eq_map (fields : JsonObject) :
    freezeFields fields = fields.map fun item => (item.1, deepFreeze item.2) := by
  induction fields with
  | nil => rfl
  | cons field rest ih => rw [freezeFields, ih, List.map_cons]

theorem plainFields_eq_map (fields : List (String × Frozen)) :
    plainFields fields = fields.map fun item => (item.1, plainJson item.2) := by
  induction fields with
  | nil => rfl
  | cons field rest ih => rw [plainFields, ih, List.map_cons]

/-- Labels are written if the value of each one is. -/
theorem dumpsFields_isSome {fields : List (String × Frozen)} :
    (∃ labels, dumpsFields fields = some labels) ↔ ∀ item ∈ fields, ∃ v, dumpsFrozen item.2 = some v := by
  induction fields with
  | nil => simp [dumpsFields]
  | cons field rest ih =>
    obtain ⟨key, v⟩ := field
    simp only [dumpsFields, Option.bind_eq_some_iff, Option.map_eq_some_iff, List.mem_cons,
      forall_eq_or_imp, ← ih]
    constructor
    · rintro ⟨_, v, hv, labels, hrest, -⟩
      exact ⟨⟨v, hv⟩, labels, hrest⟩
    · rintro ⟨⟨v, hv⟩, labels, hrest⟩
      exact ⟨_, v, hv, labels, hrest, rfl⟩

/-- The labels of an event can be written exactly if no label holds an object. -/
theorem dumps_labels {labels : JsonObject} :
    (∃ written, dumpsFields (JsonText.sortItems (freezeFields labels)) = some written) ↔
      ∀ item ∈ labels, objectFree item.2 = true := by
  rw [dumpsFields_isSome]
  constructor
  · intro h item hitem
    obtain ⟨v, hv⟩ :=
      h (item.1, deepFreeze item.2)
        (mem_sortItems.2 (by rw [freezeFields_eq_map]; exact List.mem_map_of_mem hitem))
    rw [dumps_deepFreeze] at hv
    split at hv
    · assumption
    · cases hv
  · intro h item hitem
    rw [mem_sortItems, freezeFields_eq_map] at hitem
    obtain ⟨old, hold, rfl⟩ := List.mem_map.1 hitem
    exact ⟨old.2, by rw [dumps_deepFreeze, if_pos (h old hold)]⟩

/-- What is written are the labels of the alert, in the order of their keys. -/
theorem written_perm {labels written : JsonObject}
    (h : dumpsFields (JsonText.sortItems (freezeFields labels)) = some written) :
    written.Perm labels := by
  have free := dumps_labels.1 ⟨written, h⟩
  have each : labels.map (fun item => (item.1, plainJson (deepFreeze item.2))) = labels := by
    conv_rhs => rw [← List.map_id labels]
    refine List.map_congr_left fun item hitem => ?_
    have here : dumpsFrozen (deepFreeze item.2) = some item.2 := by
      rw [dumps_deepFreeze, if_pos (free item hitem)]
    rw [plainJson_of_dumps here]
    rfl
  rw [← plainFields_of_dumps h, plainFields_eq_map]
  refine ((List.perm_insertionSort _ _).map _).trans ?_
  rw [freezeFields_eq_map, List.map_map]
  exact List.Perm.of_eq each

/-! ## The resource of an alert -/

/-- A value that a path finds is a part of the document it starts from. -/
theorem part_of_descend {v w : Json} {parts : List String} (h : descend v parts = some w) : v.Part w := by
  induction parts generalizing v with
  | nil =>
    have : v = w := by cases v <;> exact Option.some.inj h
    exact this ▸ .refl
  | cons part rest ih =>
    cases v with
    | obj d =>
      obtain ⟨u, hu, h⟩ := Option.bind_eq_some_iff.1 h
      exact (part_of_get? hu).trans (ih h)
    | _ => cases h

/-- What a path leads to is a part of its root. -/
theorem part_of_resolvePath {base : CanonicalBaseAlert} {path : SafePath} {w : Json}
    (h : resolvePath base path = some w) :
    (Json.obj (base.root path.root)).Part w := by
  unfold resolvePath at h
  dsimp only at h
  split at h
  · next v hv =>
    cases h
    exact part_of_get? hv
  · exact part_of_descend h

/-- Labels, annotations and values that can be stored. -/
def CanonicalBaseAlert.Storable (base : CanonicalBaseAlert) : Prop :=
  ∀ root, storableFields (base.root root) = true

/-- A text that is extracted from an alert without NUL has none. -/
theorem noNul_extracted {base : CanonicalBaseAlert} (h : base.Storable) {path : Option SafePath} {s : String}
    (found : extracted base path = some (some s)) : noNul s = true := by
  unfold extracted at found
  split at found
  · cases found
  · next path =>
    split at found
    · next text hpath =>
      split at found
      · cases found
      · cases found
        exact storable_part (v := .obj (base.root path.root)) (h path.root) (part_of_resolvePath hpath)
    · cases found

/-- The texts a rule gives a resource have no NUL character; the other ones are texts of the alert. -/
def NormalizedResource.Named (r : NormalizedResource) : Prop :=
  noNul r.resourceType = true ∧ ∀ s, r.displayUnit = some s → noNul s = true

/-- An optional text can be stored if it has no NUL. -/
theorem storable_textOrNull {o : Option String} : storable (textOrNull o) = true ↔ ∀ s, o = some s →
      noNul s = true := by
  cases o <;> simp [textOrNull, storable]

/-- The document of a resource can be stored exactly if the texts of its rule can. -/
theorem storable_resourceDocument {r : NormalizedResource}
    (scopeId : ∀ s, r.scopeId = some s → noNul s = true)
    (resourceId : ∀ s, r.resourceId = some s → noNul s = true)
    (resourceName : ∀ s, r.resourceName = some s → noNul s = true) :
    storableFields (resourceDocument r) = true ↔ r.Named := by
  have provider : noNul r.provider.value = true := by cases r.provider <;> decide
  have keys : ∀ key ∈ ["provider", "resourceType", "scopeId", "resourceId", "resourceName", "displayUnit"],
      noNul key = true := by
    decide
  simp only [storableFields_iff, resourceDocument, List.mem_cons, List.not_mem_nil, or_false,
    forall_eq_or_imp, forall_eq]
  simp only [storable_textOrNull, storable, provider, keys, List.mem_cons, true_or, or_true, true_and,
    NormalizedResource.Named]
  exact ⟨fun h => ⟨h.1, h.2.2.2.2⟩, fun h => ⟨h.1, scopeId, resourceId, resourceName, h.2⟩⟩

/-- What the rules extract is a text of the alert. -/
theorem resource_texts {engine : SafeRuleEngine} {base : CanonicalBaseAlert} {provider : ProviderDecision}
    {r : NormalizedResource} (h : base.Storable)
    (found : (engine.normalize base provider).resource = some r) :
    storableFields (resourceDocument r) = true ↔ r.Named := by
  have output : ∃ output : RuleOutput, output.resource base = some r := by
    unfold SafeRuleEngine.normalize at found
    dsimp only at found
    split at found
    · cases found
    · split at found
      · cases found
      · split at found
        · split at found
          · cases found
          · split at found
            · cases found
            · next hresource =>
              cases found
              exact ⟨_, hresource⟩
        · cases found
  obtain ⟨output, hr⟩ := output
  obtain ⟨scopeId, hscope, hr⟩ := Option.bind_eq_some_iff.1 hr
  obtain ⟨resourceId, hid, hr⟩ := Option.bind_eq_some_iff.1 hr
  obtain ⟨resourceName, hname, hr⟩ := Option.bind_eq_some_iff.1 hr
  cases hr
  exact storable_resourceDocument (fun s (hs : scopeId = some s) => noNul_extracted h (hs ▸ hscope))
    (fun s (hs : resourceId = some s) => noNul_extracted h (hs ▸ hid))
    fun s (hs : resourceName = some s) => noNul_extracted h (hs ▸ hname)

/-! ## The identity of an alert -/

theorem utf8_length (s : String) : (Text.utf8 s).length ≤ 4 * s.length := by
  rw [Utf.utf8_eq, ← String.length_toList]
  induction s.toList with
  | nil => exact Nat.zero_le _
  | cons c cs ih =>
    rw [List.flatMap_cons, List.length_append, List.length_cons]
    have := c.utf8Size_le_four
    have size : (String.utf8EncodeChar c).length = c.utf8Size := String.length_utf8EncodeChar c
    omega

theorem strip_length (s : String) : (Text.strip s).length ≤ s.length := by
  rw [Text.strip, String.length_ofList, Text.stripChars, List.length_reverse, ← String.length_toList]
  refine (List.dropWhile_sublist _).length_le.trans ?_
  rw [List.length_reverse]
  exact (List.dropWhile_sublist _).length_le

/-- Parts below 2^30 characters are encoded with their lengths. -/
theorem encode_isSome (parts : List String) (short : ∀ part ∈ parts, part.length < 1073741824) :
    ∃ bytes, encode parts = some bytes := by
  unfold encode
  induction parts with
  | nil => exact ⟨_, rfl⟩
  | cons part rest ih =>
    obtain ⟨tail, htail⟩ := ih fun other hother => short other (List.mem_cons_of_mem _ hother)
    have fits : (Text.utf8 part).length < 256 ^ 4 := by
      have := utf8_length part
      have := short part List.mem_cons_self
      omega
    rw [List.map_cons, LengthPrefix.encode, LengthPrefix.encodePart, if_pos fits, htail]
    exact ⟨_, rfl⟩

/-- Short texts have an identity. -/
theorem identity_isSome {h : Hashing} {sourceId : Uuid} {folder alertName : Option String}
    {fingerprint : String} (hfolder : ∀ s, folder = some s → s.length < 1073741824)
    (hname : ∀ s, alertName = some s → s.length < 1073741824)
    (hfingerprint : fingerprint.length < 1073741824) :
    ∃ identity, makeIncidentIdentityV2 h sourceId folder alertName fingerprint = some identity := by
  have stripped : ∀ value : Option String, (∀ s, value = some s → s.length < 1073741824) →
      (normalized value).length < 1073741824 := by
    intro value short
    cases value with
    | none => decide
    | some s => exact (strip_length s).trans_lt (short s rfl)
  have source : sourceId.text.length < 1073741824 := by
    rw [Uuid.text, String.length_ofList, Uuid.group_length sourceId.hex_length]
    decide
  have fallback : (orElse (Text.strip fingerprint) "__missing__").length < 1073741824 := by
    unfold orElse
    split
    · exact (strip_length fingerprint).trans_lt hfingerprint
    · decide
  have literal : "2".length < 1073741824 ∧ "__invalid__".length < 1073741824 := by decide
  unfold makeIncidentIdentityV2
  dsimp only
  -- whichever errors there are, the parts are short
  generalize ((if normalized folder = "" then [⟨"folder", "required"⟩] else []) ++ _ ++
    _ : List AlertValidationError) = errors
  by_cases invalid : errors ≠ []
  · obtain ⟨bytes, hbytes⟩ :=
      encode_isSome ["2", sourceId.text, "__invalid__", orElse (Text.strip fingerprint) "__missing__"]
      (by simp [source, fallback, literal])
    rw [if_pos invalid, hbytes]
    exact ⟨_, rfl⟩
  · obtain ⟨bytes, hbytes⟩ := encode_isSome ["2", sourceId.text, normalized folder, normalized alertName]
      (by simp [source, literal, stripped _ hfolder, stripped _ hname])
    rw [if_neg invalid, hbytes]
    exact ⟨_, rfl⟩

/-! ## Events -/

/-- What an event stores besides its labels and its resource has no NUL character. -/
structure CanonicalAlertEvent.Clean (event : CanonicalAlertEvent) : Prop where
  labels : ∀ written, dumpsFields event.labels = some written → storableFields written = true
  annotations : storableFields (textFields event.annotations) = true
  issue : noNul event.issue = true

/-- The labels of an event can be written, and its resource can be stored. -/
def CanonicalAlertEvent.Writable (event : CanonicalAlertEvent) : Prop :=
  (∃ written, dumpsFields event.labels = some written) ∧ ∀ r, event.resource = some r →
    storableFields (resourceDocument r) = true

/-- No label of the alert holds an object, and the rule that applies to it names its resource without
a NUL character. -/
def GrafanaAlert.Serialisable (engine : SafeRuleEngine) (alert : GrafanaAlert) : Prop :=
  (∀ item ∈ alert.labels, objectFree item.2 = true) ∧
    ∀ r, (engine.normalize alert.base (detectProvider alert.labels)).resource = some r → r.Named

section

variable {h : Hashing} {sourceId : Uuid} {rawSha256 : String} {engine : SafeRuleEngine}

theorem textFields_sortItems (items : List (String × String)) :
    (textFields (JsonText.sortItems items)).Perm (textFields items) :=
  (List.perm_insertionSort _ items).map _

/-- The event of an alert of a document that can be stored has no NUL in its texts. -/
theorem normalizeAlert_clean (stored : storable document = true) (within : alert.Within document) :
    (normalizeAlert h sourceId rawSha256 engine alert).Clean where
  labels _ hwritten := storableFields_perm (written_perm hwritten) (storable_part stored within.labels)
  annotations := storableFields_perm (textFields_sortItems _) (storable_part stored within.annotations)
  issue := by
    show noNul ((JsonObject.get? alert.annotations "AlertValues").getD "") = true
    cases found : JsonObject.get? alert.annotations "AlertValues" with
    | none => decide
    | some s =>
      have here : ("AlertValues", Json.str s) ∈ textFields alert.annotations :=
        List.mem_map_of_mem (f := fun item : String × String => (item.1, Json.str item.2))
          (JsonObject.mem_of_get? found)
      exact (storableFields_iff.1 (storable_part stored within.annotations) _ here).2

/-- The event of such an alert can be written exactly if the alert can be serialised. -/
theorem normalizeAlert_writable (stored : storable document = true) (within : alert.Within document) :
    (normalizeAlert h sourceId rawSha256 engine alert).Writable ↔ alert.Serialisable engine := by
  have base : CanonicalBaseAlert.Storable alert.base := by
    rintro (_ | _ | _)
    · exact storable_part stored within.labels
    · exact storable_part stored within.annotations
    · exact storable_part stored within.values
  refine and_congr dumps_labels (forall_congr' fun r => ?_)
  exact ⟨fun written found => (resource_texts base found).1 (written found),
    fun named found => (resource_texts base found).2 (named found)⟩

/-- An alert of a short document has an identity. -/
theorem normalizeAlert_identity {n : Nat} (short : document.Texts fun s => s.length ≤ n)
    (bound : n < 1073741824) (within : alert.Within document) :
    ∃ identity,
      makeIncidentIdentityV2 h sourceId (normalizeAlert h sourceId rawSha256 engine alert).folderCode
      (normalizeAlert h sourceId rawSha256 engine alert).alertName (normalizeAlert h sourceId rawSha256
        engine alert).fingerprint =
        some identity := by
  have labels := short.part within.labels
  have label : ∀ key s, strippedLabel alert.labels key = some s → s.length < 1073741824 := by
    intro key s hs
    unfold strippedLabel at hs
    split at hs
    · next text hlabel =>
      have : text.length ≤ n := (Json.textsFields_iff.1 labels _ (JsonObject.mem_of_get? hlabel)).2
      split at hs
      · cases hs
      · cases hs
        exact (strip_length text).trans_lt (by omega)
    · cases hs
  refine identity_isSome (label "folder") (label "alertname") ?_
  show (makeAlertFingerprint h sourceId alert.fingerprint alert.labels).length < _
  unfold makeAlertFingerprint
  split
  · have : alert.fingerprint.length ≤ n := short.part within.fingerprint
    omega
  · have digits : (labelHash h sourceId alert.labels).toList.length = 64 := (h.digits _).1
    rw [String.length_toList] at digits
    omega

end

end SreAgent.Ingestion
