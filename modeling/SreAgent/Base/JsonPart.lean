import SreAgent.Base.JsonBytes
import SreAgent.Base.JsonRoundTrip

/-!
# Parts of a document

A part of a document is the document itself, or a part of an item or of a field. What holds of every
text of a document holds of the texts of its parts; in particular every text of a parsed document is
shorter than what it was parsed from, so that no document has a text as a part that it is parsed from.
-/

namespace SreAgent.Base.Json

variable {σ : Type}

/-- `w` is a part of `v`. -/
inductive Part : Json σ → Json σ → Prop where
  | refl {v : Json σ} : Part v v
  | item {items : List (Json σ)} {v w : Json σ} (mem : v ∈ items) (part : Part v w) : Part (.arr items) w
  | field {fields : JsonObject σ} {key : σ} {v w : Json σ} (mem : (key, v) ∈ fields) (part : Part v w) :
      Part (.obj fields) w

/-- A part of a part is a part. -/
theorem Part.trans {u v w : Json σ} (h : Part u v) (h' : Part v w) : Part u w := by
  induction h with
  | refl => exact h'
  | item mem _ ih => exact .item mem (ih h')
  | field mem _ ih => exact .field mem (ih h')

/-- A part stays one, whatever the strings are replaced by. -/
theorem Part.map {τ : Type} {v w : Json σ} (h : Part v w) (f : σ → τ) : (v.map f).Part (w.map f) := by
  induction h with
  | refl => exact .refl
  | item mem _ ih =>
    rw [Json.map, mapItems_eq]
    exact .item (List.mem_map_of_mem mem) ih
  | field mem _ ih =>
    rw [Json.map, mapFields_eq]
    exact .field (List.mem_map_of_mem mem) ih

/-- A field is smaller than its object. -/
theorem ne_of_field {fields : JsonObject σ} {key : σ} {v : Json σ} (h : (key, v) ∈ fields) :
    v ≠ .obj fields := by
  rintro rfl
  have smaller := List.sizeOf_lt_of_mem h
  simp only [Prod.mk.sizeOf_spec, Json.obj.sizeOf_spec] at smaller
  omega

mutual

/-- `p` holds of every text and of every key. -/
def Texts (p : σ → Prop) : Json σ → Prop
  | .str s => p s
  | .arr items => TextsItems p items
  | .obj fields => TextsFields p fields
  | _ => True

def TextsItems (p : σ → Prop) : List (Json σ) → Prop
  | [] => True
  | v :: rest => Texts p v ∧ TextsItems p rest

def TextsFields (p : σ → Prop) : List (σ × Json σ) → Prop
  | [] => True
  | (key, v) :: rest => p key ∧ Texts p v ∧ TextsFields p rest

end

variable {p : σ → Prop}

theorem textsItems_iff {items : List (Json σ)} : TextsItems p items ↔ ∀ v ∈ items, v.Texts p := by
  induction items with
  | nil => simp [TextsItems]
  | cons v rest ih => simp [TextsItems, ih]

theorem textsFields_iff {fields : JsonObject σ} : TextsFields p fields ↔
      ∀ item ∈ fields, p item.1 ∧ item.2.Texts p := by
  induction fields with
  | nil => simp [TextsFields]
  | cons field rest ih => simp [TextsFields, ih, and_assoc]

/-- What holds of every text of a document holds of those of its parts. -/
theorem Texts.part {v w : Json σ} (h : v.Texts p) (part : v.Part w) : w.Texts p := by
  induction part with
  | refl => exact h
  | item mem _ ih =>
    rw [Texts] at h
    exact ih (textsItems_iff.1 h _ mem)
  | field mem _ ih =>
    rw [Texts] at h
    exact ih (textsFields_iff.1 h _ mem).2

section Map

variable {τ : Type} {f : σ → τ} {q : τ → Prop}

mutual

/-- The texts of a mapped document are the mapped texts. -/
theorem texts_map (v : Json σ) : (v.map f).Texts q ↔ v.Texts fun s => q (f s) := by
  match v with
  | .null | .bool _ | .int _ | .float _ | .str _ => simp [Json.map, Texts]
  | .arr items => simp [Json.map, Texts, texts_mapItems items]
  | .obj fields => simp [Json.map, Texts, texts_mapFields fields]

theorem texts_mapItems (items : List (Json σ)) :
    TextsItems q (mapItems f items) ↔ TextsItems (fun s => q (f s)) items := by
  match items with
  | [] => rfl
  | v :: rest => rw [mapItems, TextsItems, TextsItems, texts_map v, texts_mapItems rest]

theorem texts_mapFields (fields : JsonObject σ) :
    TextsFields q (mapFields f fields) ↔ TextsFields (fun s => q (f s)) fields := by
  match fields with
  | [] => rfl
  | (key, v) :: rest => rw [mapFields, TextsFields, TextsFields, texts_map v, texts_mapFields rest]

end

end Map

/-- The texts of a document are as long as its strings. -/
theorem texts_of_coded {v : Json} {n : Nat} (h : v.coded.Texts fun s => s.codes.length ≤ n) :
    v.Texts fun s => s.length ≤ n := by
  simpa only [coded, texts_map, PyStr.ofString, List.length_map, String.length_toList] using h

/-! ## Floats -/

mutual

/-- The floats of a document. -/
def floats : Json σ → List FloatVal
  | .float x => [x]
  | .arr items => floatsItems items
  | .obj fields => floatsFields fields
  | _ => []

def floatsItems : List (Json σ) → List FloatVal
  | [] => []
  | v :: rest => floats v ++ floatsItems rest

def floatsFields : List (σ × Json σ) → List FloatVal
  | [] => []
  | (_, v) :: rest => floats v ++ floatsFields rest

end

end SreAgent.Base.Json

namespace SreAgent.Base.JsonParse
open JsonText Utf

/-! ## Texts of a parsed document -/

/-- A literal has no more characters than what it is read from. -/
theorem stringBody_short {fuel : Nat} {cs rest : List Char} {s : List CodePoint}
    (h : stringBody fuel cs = .ok (s, rest)) : s.length ≤ cs.length := by
  induction fuel generalizing cs s rest with
  | zero => cases h
  | succ fuel ih =>
    have part : ∀ {tail rest : List Char} {c : CodePoint} {s : List CodePoint},
        ((stringBody fuel tail).map fun read => (c :: read.1, read.2)) = .ok (s, rest) →
        tail.length < cs.length → s.length ≤ cs.length := by
      intro tail rest c s h shorter
      cases hread : stringBody fuel tail with
      | error e => rw [hread] at h; cases h
      | ok read =>
        rw [hread] at h
        cases h
        have := ih hread
        simp only [List.length_cons]
        omega
    cases cs with
    | nil => cases h
    | cons c cs =>
      rw [stringBody.eq_def] at h
      dsimp only at h
      split at h
      · cases h
        exact Nat.zero_le _
      · split at h
        · cases h
        · split at h
          · split at h
            · cases h
            · next e rest' =>
              split at h
              · exact part h (by simp only [List.length_cons]; omega)
              · split at h
                · cases h
                · split at h
                  · cases h
                  · next high rest'' hunit =>
                    have hlen := unit_length hunit
                    simp only [List.length_cons] at part
                    split at h
                    · split at h
                      · exact part h (by omega)
                      · next tail hdrop =>
                        have htail := dropLiteral_length hdrop (by simp)
                        split at h
                        · cases h
                        · next low after hlow =>
                          have hafter := unit_length hlow
                          split at h
                          · exact part h (by omega)
                          · exact part h (by omega)
                    · exact part h (by omega)
          · exact part h (by simp)

/-- A string literal is no longer than its source. -/
theorem stringLit_short {cs rest : List Char} {s : PyStr} (h : stringLit cs = .ok (s, rest)) :
    s.codes.length ≤ cs.length := by
  unfold stringLit at h
  cases hread : stringBody (cs.length + 1) cs with
  | error e => rw [hread] at h; cases h
  | ok read =>
    rw [hread] at h
    cases h
    exact stringBody_short hread

/-- The strings of a value that was read are at most `n` code points long. -/
def Short (n : Nat) (r : Result PyJson) : Prop :=
  ∀ v rest, r = .ok (v, rest) → v.Texts fun s => s.codes.length ≤ n

section

variable {n : Nat} {v : PyJson} {rest : List Char}

theorem Short.error {e : LoadsError} : Short n (.error e) := fun _ _ h => nomatch h

theorem Short.ok (h : v.Texts fun s => s.codes.length ≤ n) : Short n (.ok (v, rest)) := by
  rintro _ _ ⟨rfl, rfl⟩
  exact h

/-- A number has no text. -/
theorem number_short (i : Interpreter) (cs : List Char) : Short n (number i cs) := by
  unfold number
  dsimp only
  split
  · exact .error
  · split
    · split
      · exact .error
      · exact .ok trivial
    · exact .ok trivial

/-- Setting an item keeps a property of the texts. -/
theorem textsFields_setItem {p : PyStr → Prop} {d : JsonObject PyStr} {key : PyStr}
    (h : Json.TextsFields p d) (hkey : p key) (hv : v.Texts p) : Json.TextsFields p (setItem d key v) := by
  rw [Json.textsFields_iff] at h ⊢
  intro item hitem
  unfold setItem at hitem
  split at hitem
  · obtain ⟨old, hold, rfl⟩ := List.mem_map.1 hitem
    split
    · exact ⟨hkey, hv⟩
    · exact h old hold
  · rcases List.mem_append.1 hitem with hitem | hitem
    · exact h item hitem
    · rw [List.mem_singleton.1 hitem]
      exact ⟨hkey, hv⟩

/-- The three readers, one fuel at a time. -/
theorem readers_short (i : Interpreter) (n fuel : Nat) :
    (∀ depth cs, cs.length ≤ n + 1 → Short n (value i fuel depth cs)) ∧
    (∀ depth acc cs, cs.length ≤ n + 1 → Json.TextsItems (fun s => s.codes.length ≤ n) acc →
      Short n (elements i fuel depth acc cs)) ∧
    (∀ depth acc cs, cs.length ≤ n + 1 → Json.TextsFields (fun s => s.codes.length ≤ n) acc →
      Short n (members i fuel depth acc cs)) := by
  induction fuel with
  | zero => exact ⟨fun _ _ _ => .error, fun _ _ _ _ _ => .error, fun _ _ _ _ _ => .error⟩
  | succ fuel ih =>
    obtain ⟨values, elementss, memberss⟩ := ih
    refine ⟨fun depth cs hn => ?_, fun depth acc cs hn hacc => ?_, fun depth acc cs hn hacc => ?_⟩
    · cases cs with
      | nil => exact .error
      | cons c cs =>
        rw [List.length_cons] at hn
        have blank := skipBlank_length cs
        rw [value.eq_def]
        dsimp only
        split
        · cases hread : stringLit cs with
          | error e => exact .error
          | ok read =>
            refine .ok ?_
            have := stringLit_short hread
            rw [Json.Texts]
            omega
        · split
          · split
            · exact .error
            · next depth =>
              split
              · exact .error
              · next c' rest hskip =>
                rw [hskip, List.length_cons] at blank
                split
                · exact .ok trivial
                · exact memberss depth [] (c' :: rest) (by simp only [List.length_cons]; omega) trivial
          · split
            · split
              · exact .error
              · next depth =>
                split
                · exact .error
                · next c' rest hskip =>
                  rw [hskip, List.length_cons] at blank
                  split
                  · exact .ok trivial
                  · exact elementss depth [] (c' :: rest) (by simp only [List.length_cons]; omega) trivial
            · split
              on_goal 7 => exact number_short i _
              all_goals exact .ok trivial
    · rw [elements]
      have first := values depth cs hn
      have shrinks := (value_bounded i fuel depth cs).shrinks
      split
      · exact .error
      · next v rest hv =>
        have shorter := shrinks v rest hv
        have blank := skipBlank_length rest
        have longer : Json.TextsItems (fun s => s.codes.length ≤ n) (acc ++ [v]) := by
          rw [Json.textsItems_iff] at hacc ⊢
          intro w hw
          rcases List.mem_append.1 hw with hw | hw
          · exact hacc w hw
          · rw [List.mem_singleton.1 hw]
            exact first v rest hv
        split
        · exact .ok longer
        · next rest' hskip =>
          rw [hskip, List.length_cons] at blank
          have blank' := skipBlank_length rest'
          exact elementss depth _ (skipBlank rest') (by omega) longer
        · exact .error
    · cases cs with
      | nil => exact .error
      | cons c cs =>
        rw [List.length_cons] at hn
        rw [members]
        split
        · split
          · exact .error
          · next name rest hkey =>
            have key := stringLit_short hkey
            have shorter :=
              (stringLit_bounded i (2 * cs.length + 2) (fuel + 1) depth cs).shrinks name rest hkey
            have blank := skipBlank_length rest
            split
            · next rest hskip =>
              rw [hskip, List.length_cons] at blank
              have blank' := skipBlank_length rest
              have item := values depth (skipBlank rest) (by omega)
              have shrinks := (value_bounded i fuel depth (skipBlank rest)).shrinks
              split
              · exact .error
              · next v rest' hv =>
                have shorter' := shrinks v rest' hv
                have blank'' := skipBlank_length rest'
                have longer := textsFields_setItem hacc (by omega : name.codes.length ≤ n) (item v rest' hv)
                split
                · exact .ok longer
                · next rest'' hskip' =>
                  rw [hskip', List.length_cons] at blank''
                  have blank''' := skipBlank_length rest''
                  exact memberss depth _ (skipBlank rest'') (by omega) longer
                · exact .error
            · exact .error
        · exact .error

end

/-- Every text of a document is shorter than what it was parsed from. -/
theorem texts_of_parse {i : Interpreter} {text : List Char} {n : Nat} {v : PyJson} (h : parse i text = .ok v)
    (short : text.length ≤ n + 1) :
    v.Texts fun s => s.codes.length ≤ n := by
  unfold parse at h
  split at h
  · cases h
  · next w rest hread =>
    split at h
    · cases h
      exact (readers_short i n _).1 _ _ ((skipBlank_length text).trans short) v rest hread
    · cases h

/-- No document has the text it is parsed from as a part. -/
theorem not_part_of_parse {i : Interpreter} {text : String} {v : PyJson} (h : parse i text.toList = .ok v) :
    ¬ v.Part (.str (.ofString text)) := by
  intro part
  have pos : text.toList ≠ [] := by
    intro empty
    rw [empty] at h
    cases h
  have long := List.length_pos_of_ne_nil pos
  have bound : text.toList.length ≤ (text.toList.length - 1) + 1 := by omega
  have short : (Json.str (PyStr.ofString text)).Texts fun s => s.codes.length ≤ text.toList.length - 1 :=
    (texts_of_parse h bound).part part
  rw [Json.Texts, PyStr.ofString, List.length_map] at short
  omega

/-! ## Writing -/

section

variable {σ : Type}

mutual

/-- `json.dumps` stays within the limits of the interpreter, which are those of reading. -/
def writes (i : Interpreter) : Nat → Json σ → Bool
  | _, .int n => digitCount n ≤ i.maxDigits
  | 0, .arr _ => false
  | depth + 1, .arr items => writesAll i depth items
  | 0, .obj _ => false
  | depth + 1, .obj fields => writesFields i depth fields
  | _, _ => true

def writesAll (i : Interpreter) : Nat → List (Json σ) → Bool
  | _, [] => true
  | depth, v :: rest => writes i depth v && writesAll i depth rest

def writesFields (i : Interpreter) : Nat → List (σ × Json σ) → Bool
  | _, [] => true
  | depth, (_, v) :: rest => writes i depth v && writesFields i depth rest

end

end

section Writes

variable {o : Options} {i : Interpreter}

mutual

/-- A document within the limits is read back, where its keys are distinct and its floats are read back. -/
theorem writable_of_writes (unsorted : o.sortKeys = false) {depth : Nat} {v : Json}
    (h : writes i depth v = true) (distinct : v.Distinct) (floats : ∀ x ∈ v.floats, FloatReads o i x) :
    Writable o i depth v := by
  match v, depth with
  | .null, _ => simp [Writable]
  | .bool _, _ => simp [Writable]
  | .int n, _ => simpa [Writable, writes] using h
  | .float x, _ => simpa [Writable] using floats x List.mem_cons_self
  | .str _, _ => simp [Writable]
  | .arr _, 0 => simp [writes] at h
  | .arr items, depth + 1 =>
    rw [writes] at h
    rw [Json.Distinct] at distinct
    rw [Writable]
    exact writableAll_of_writes unsorted h distinct floats
  | .obj _, 0 => simp [writes] at h
  | .obj fields, depth + 1 =>
    rw [writes] at h
    rw [Json.Distinct] at distinct
    rw [Writable]
    refine ⟨⟨distinct.1, fun sorted => ?_⟩, ?_⟩
    · rw [unsorted] at sorted
      cases sorted
    · exact writableItems_of_writes unsorted h distinct.2 floats

theorem writableAll_of_writes (unsorted : o.sortKeys = false) {depth : Nat} {items : List Json}
    (h : writesAll i depth items = true) (distinct : Json.DistinctItems items)
    (floats : ∀ x ∈ Json.floatsItems items, FloatReads o i x) :
    WritableAll o i depth items := by
  match items with
  | [] => simp [WritableAll]
  | v :: rest =>
    rw [writesAll, Bool.and_eq_true] at h
    rw [WritableAll]
    constructor
    · exact writable_of_writes unsorted h.1 distinct.1 fun x hx => floats x (List.mem_append_left _ hx)
    · exact writableAll_of_writes unsorted h.2 distinct.2 fun x hx => floats x (List.mem_append_right _ hx)

theorem writableItems_of_writes (unsorted : o.sortKeys = false) {depth : Nat}
    {fields : List (String × Json)} (h : writesFields i depth fields = true)
    (distinct : Json.DistinctFields fields) (floats : ∀ x ∈ Json.floatsFields fields, FloatReads o i x) :
    WritableItems o i depth fields := by
  match fields with
  | [] => simp [WritableItems]
  | (key, v) :: rest =>
    rw [writesFields, Bool.and_eq_true] at h
    rw [WritableItems]
    constructor
    · exact writable_of_writes unsorted h.1 distinct.1 fun x hx => floats x (List.mem_append_left _ hx)
    · exact writableItems_of_writes unsorted h.2 distinct.2 fun x hx => floats x (List.mem_append_right _ hx)

end

end Writes

end SreAgent.Base.JsonParse

namespace SreAgent.Base.JsonBytes

/-- No text that is read is longer than the bytes. -/
theorem texts_of_loads {i : JsonParse.Interpreter} {bs : List UInt8} {v : PyJson} (h : loads i bs = .ok v) :
    v.Texts fun s => s.codes.length ≤ bs.length := by
  unfold loads at h
  split at h
  · cases h
  · next text htext => exact JsonParse.texts_of_parse h (Nat.le_succ_of_le (decodeAs_length htext))

end SreAgent.Base.JsonBytes
