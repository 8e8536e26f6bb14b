import SreAgent.Base.Json
import SreAgent.Base.PyStr

/-!
# Documents with strings of Python

What `json.loads` returns may hold strings that are no texts, since an escaped surrogate may stand
alone. A document without such a string, among its keys as well, is a document of texts (`text?`).
-/

namespace SreAgent.Base

/-- A document with strings of Python. -/
abbrev PyJson := Json PyStr

namespace Json

section Map

variable {σ τ : Type}

mutual

/-- The document with every string and every key replaced. -/
def map (f : σ → τ) : Json σ → Json τ
  | .null => .null
  | .bool b => .bool b
  | .int n => .int n
  | .float x => .float x
  | .str s => .str (f s)
  | .arr items => .arr (mapItems f items)
  | .obj fields => .obj (mapFields f fields)

def mapItems (f : σ → τ) : List (Json σ) → List (Json τ)
  | [] => []
  | v :: rest => map f v :: mapItems f rest

def mapFields (f : σ → τ) : List (σ × Json σ) → List (τ × Json τ)
  | [] => []
  | (key, v) :: rest => (f key, map f v) :: mapFields f rest

end

variable {f : σ → τ}

theorem mapItems_eq (items : List (Json σ)) : mapItems f items = items.map (map f) := by
  induction items with
  | nil => rfl
  | cons v rest ih => rw [mapItems, ih, List.map_cons]

theorem mapFields_eq (fields : List (σ × Json σ)) :
    mapFields f fields = fields.map fun item => (f item.1, item.2.map f) := by
  induction fields with
  | nil => rfl
  | cons field rest ih => rw [mapFields, ih, List.map_cons]

theorem keys_mapFields (fields : List (σ × Json σ)) :
    JsonObject.keys (mapFields f fields) = (JsonObject.keys fields).map f := by
  rw [mapFields_eq, JsonObject.keys, JsonObject.keys, List.map_map, List.map_map]
  rfl

end Map

/-! ## Documents of texts -/

/-- A document of texts. -/
def coded (v : Json) : PyJson := v.map PyStr.ofString

theorem mapItems_ofString_cons (v : Json) (rest : List Json) :
    mapItems PyStr.ofString (v :: rest) = v.coded :: mapItems PyStr.ofString rest := rfl

theorem mapFields_ofString_cons (key : String) (v : Json) (rest : JsonObject) :
    mapFields PyStr.ofString ((key, v) :: rest) =
      (.ofString key, v.coded) :: mapFields PyStr.ofString rest := rfl

mutual

/-- The document as one of texts, if no string of it and no key has a surrogate. -/
def text? : PyJson → Option Json
  | .null => some .null
  | .bool b => some (.bool b)
  | .int n => some (.int n)
  | .float x => some (.float x)
  | .str s => s.text?.map .str
  | .arr items => (textItems? items).map .arr
  | .obj fields => (textFields? fields).map .obj

def textItems? : List PyJson → Option (List Json)
  | [] => some []
  | v :: rest => do return (← text? v) :: (← textItems? rest)

def textFields? : List (PyStr × PyJson) → Option JsonObject
  | [] => some []
  | (key, v) :: rest => do return (← key.text?, ← text? v) :: (← textFields? rest)

end

mutual

/-- The document of a text document has texts. -/
theorem text?_coded (v : Json) : v.coded.text? = some v := by
  match v with
  | .null | .bool _ | .int _ | .float _ => rfl
  | .str s => simp [coded, map, text?, PyStr.text?_ofString]
  | .arr items => simp [coded, map, text?, textItems?_coded items]
  | .obj fields => simp [coded, map, text?, textFields?_coded fields]

theorem textItems?_coded (items : List Json) : textItems? (mapItems PyStr.ofString items) = some items := by
  match items with
  | [] => rfl
  | v :: rest =>
    have head : text? (map PyStr.ofString v) = some v := text?_coded v
    simp [mapItems, textItems?, head, textItems?_coded rest]

theorem textFields?_coded (fields : JsonObject) :
    textFields? (mapFields PyStr.ofString fields) = some fields := by
  match fields with
  | [] => rfl
  | (key, v) :: rest =>
    have head : text? (map PyStr.ofString v) = some v := text?_coded v
    simp [mapFields, textFields?, PyStr.text?_ofString, head, textFields?_coded rest]

end

mutual

/-- A document whose texts can all be read is the coded one. -/
theorem coded_of_text? {d : PyJson} {v : Json} (h : d.text? = some v) : d = v.coded := by
  match d with
  | .null | .bool _ | .int _ | .float _ =>
    cases h
    rfl
  | .str s =>
    obtain ⟨t, ht, rfl⟩ := Option.map_eq_some_iff.1 h
    rw [PyStr.text?_eq_some.1 ht]
    rfl
  | .arr items =>
    obtain ⟨texts, htexts, rfl⟩ := Option.map_eq_some_iff.1 h
    exact congrArg Json.arr (coded_of_textItems? htexts)
  | .obj fields =>
    obtain ⟨texts, htexts, rfl⟩ := Option.map_eq_some_iff.1 h
    exact congrArg Json.obj (coded_of_textFields? htexts)

theorem coded_of_textItems? {items : List PyJson} {texts : List Json} (h : textItems? items = some texts) :
    items = mapItems PyStr.ofString texts := by
  match items with
  | [] =>
    cases h
    rfl
  | d :: rest =>
    simp only [textItems?, Option.bind_eq_bind, Option.bind_eq_some_iff] at h
    obtain ⟨v, hv, more, hmore, same⟩ := h
    cases same
    rw [mapItems, ← coded_of_textItems? hmore, coded_of_text? hv]
    rfl

theorem coded_of_textFields? {fields : List (PyStr × PyJson)} {texts : JsonObject}
    (h : textFields? fields = some texts) : fields = mapFields PyStr.ofString texts := by
  match fields with
  | [] =>
    cases h
    rfl
  | (key, d) :: rest =>
    simp only [textFields?, Option.bind_eq_bind, Option.bind_eq_some_iff] at h
    obtain ⟨name, hname, v, hv, more, hmore, same⟩ := h
    cases same
    rw [mapFields, ← coded_of_textFields? hmore, PyStr.text?_eq_some.1 hname, coded_of_text? hv]
    rfl

end

/-- A document is one of texts exactly if it is the document of these texts. -/
theorem text?_eq_some {d : PyJson} {v : Json} : d.text? = some v ↔ d = v.coded := by
  constructor
  · exact coded_of_text?
  · rintro rfl
    exact text?_coded v

/-- Coding loses nothing. -/
theorem coded_injective : Function.Injective coded := by
  intro v w same
  have := text?_coded v
  rw [same, text?_coded] at this
  exact (Option.some.inj this).symm

/-! ## What validation makes of other documents -/

mutual

/-- A document of texts that is validated alike, where texts and scalars of known fields are
expected: a string that is no text counts as an empty object, and so does the value of a key that is
none. -/
def legible : PyJson → Json
  | .null => .null
  | .bool b => .bool b
  | .int n => .int n
  | .float x => .float x
  | .str s => (s.text?.map .str).getD (.obj [])
  | .arr items => .arr (legibleItems items)
  | .obj fields => .obj (legibleFields fields)

def legibleItems : List PyJson → List Json
  | [] => []
  | v :: rest => legible v :: legibleItems rest

def legibleFields : List (PyStr × PyJson) → JsonObject
  | [] => []
  | (key, v) :: rest => (key.shown, if key.text?.isSome then legible v else .obj []) :: legibleFields rest

end

theorem shown_ofString (s : String) : (PyStr.ofString s).shown = s := by
  simp [PyStr.shown, PyStr.ofString, Function.comp_def, CodePoint.char?_ofChar]

mutual

/-- A coded document is shown as the one it codes. -/
theorem legible_coded (v : Json) : v.coded.legible = v := by
  match v with
  | .null | .bool _ | .int _ | .float _ => rfl
  | .str s => simp [coded, map, legible, PyStr.text?_ofString]
  | .arr items => simp [coded, map, legible, legibleItems_coded items]
  | .obj fields => simp [coded, map, legible, legibleFields_coded fields]

theorem legibleItems_coded (items : List Json) : legibleItems (mapItems PyStr.ofString items) = items := by
  match items with
  | [] => rfl
  | v :: rest =>
    have head : legible (map PyStr.ofString v) = v := legible_coded v
    simp [mapItems, legibleItems, head, legibleItems_coded rest]

theorem legibleFields_coded (fields : JsonObject) :
    legibleFields (mapFields PyStr.ofString fields) = fields := by
  match fields with
  | [] => rfl
  | (key, v) :: rest =>
    have head : legible (map PyStr.ofString v) = v := legible_coded v
    simp [mapFields, legibleFields, PyStr.text?_ofString, shown_ofString, head, legibleFields_coded rest]

end

end Json

end SreAgent.Base
