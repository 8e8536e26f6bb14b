import SreAgent.Base.Text
import SreAgent.Trace.Stored

/-!
# When a field validator raises

The exceptions that leave a validator: a time that is no number, or an integer no float
represents; a start that is no string, or whose instant in UTC is out of range; a server address
in the form of a JWT whose header or payload nests too deeply. Every other label is too short
for that.
-/

namespace SreAgent.Trace
open Base JsonParse

/-! ## JWTs -/

/-- Header or payload of a JWT-like text nests beyond the recursion limit. -/
def JwtTooDeep (i : Interpreter) (value : String) : Prop :=
  ∃ header payload, jwtParts value = some (header, payload) ∧
    (decodeBase64urlJsonObject i header = .error .recursion ∨
      ∃ d, decodeBase64urlJsonObject i header = .ok d ∧ decodeBase64urlJsonObject i payload =
        .error .recursion)

section Jwt

variable {i : Interpreter} {value : String} {part : List Char}

/-- Parts within the limits do not reach them. -/
theorem decode_short (depth : part.length ≤ i.maxDepth) (digits : part.length ≤ i.maxDigits) :
    decodeBase64urlJsonObject i part ≠ .error .recursion ∧
      decodeBase64urlJsonObject i part ≠ .error .intTooLong := by
  have short := Base64.decode_length part
  unfold decodeBase64urlJsonObject
  split
  · simp
  · simp
  · next e h =>
    constructor
    · rintro ⟨rfl⟩
      exact JsonBytes.loads_shallow (short.trans depth) h
    · rintro ⟨rfl⟩
      exact JsonBytes.loads_short (short.trans digits) h

/-- The parts of a token are no longer than the token. -/
theorem jwtParts_length {header payload : List Char} (h : jwtParts value = some (header, payload)) :
    header.length ≤ value.toList.length ∧ payload.length ≤ value.toList.length := by
  unfold jwtParts at h
  split at h
  · next a b c hsplit =>
    split at h
    · cases h
    · cases h
      have part : ∀ x ∈ value.toList.splitOn '.', x.length ≤ value.toList.length := fun x hx =>
        Text.length_le_of_mem_splitOnP _ hx
      rw [hsplit] at part
      exact ⟨part _ (by simp), part _ (by simp)⟩
  · cases h

/-- How the JWT filter fails. -/
theorem isCompactJwt_error {e : PyError} :
    isCompactJwt i value = .error e ↔ ∃ header payload, jwtParts value = some (header, payload) ∧
      ∃ cause, uncaught cause = some e ∧ (decodeBase64urlJsonObject i header = .error cause ∨
        ∃ d, decodeBase64urlJsonObject i header = .ok d ∧ decodeBase64urlJsonObject i payload =
          .error cause) := by
  unfold isCompactJwt
  cases hparts : jwtParts value with
  | none => simp
  | some parts =>
    obtain ⟨header, payload⟩ := parts
    simp only [Option.some.injEq, Prod.mk.injEq, exists_and_left, exists_eq_left', and_assoc]
    cases hheader : decodeBase64urlJsonObject i header with
    | error cause => cases hc : uncaught cause <;> simp [bind, Except.bind, hc]
    | ok d =>
      cases hpayload : decodeBase64urlJsonObject i payload with
      | error cause => cases hc : uncaught cause <;> simp [bind, Except.bind, hc]
      | ok d' => simp [bind, Except.bind, pure, Except.pure]

/-- The filter fails with a collected `ValueError`, or because the text nests too deeply. -/
theorem isCompactJwt_error_cases {e : PyError} (h : isCompactJwt i value = .error e) :
    e = .valueError ∨ e = .recursionError ∧ JwtTooDeep i value := by
  obtain ⟨header, payload, hparts, cause, hcause, hfail⟩ := isCompactJwt_error.1 h
  cases cause with
  | intTooLong =>
    cases hcause
    exact .inl rfl
  | recursion =>
    cases hcause
    exact .inr ⟨rfl, header, payload, hparts, hfail⟩
  | decode | outOfFuel => cases hcause

/-- A token that nests too deep raises. -/
theorem isCompactJwt_of_tooDeep (h : JwtTooDeep i value) : isCompactJwt i value = .error .recursionError := by
  obtain ⟨header, payload, hparts, hfail⟩ := h
  exact isCompactJwt_error.2 ⟨header, payload, hparts, .recursion, rfl, hfail⟩

/-- A label within the limits is always classified. -/
theorem isCompactJwt_short (depth : value.toList.length ≤ i.maxDepth)
    (digits : value.toList.length ≤ i.maxDigits) :
    ∃ jwt, isCompactJwt i value = .ok jwt := by
  cases h : isCompactJwt i value with
  | ok jwt => exact ⟨jwt, rfl⟩
  | error e =>
    obtain ⟨header, payload, hparts, cause, hcause, hfail⟩ := isCompactJwt_error.1 h
    obtain ⟨hh, hp⟩ := jwtParts_length hparts
    have header_ok := decode_short (hh.trans depth) (hh.trans digits)
    have payload_ok := decode_short (hp.trans depth) (hp.trans digits)
    cases cause with
    | intTooLong =>
      rcases hfail with hfail | ⟨d, -, hfail⟩
      · exact absurd hfail header_ok.2
      · exact absurd hfail payload_ok.2
    | recursion =>
      rcases hfail with hfail | ⟨d, -, hfail⟩
      · exact absurd hfail header_ok.1
      · exact absurd hfail payload_ok.1
    | decode | outOfFuel => cases hcause

end Jwt

/-! ## Labels are short -/

theorem identifierPattern_length {cs : List Char} (h : identifierPattern cs = true) : cs.length ≤ 128 := by
  cases cs with
  | nil => simp
  | cons c cs =>
    simp only [identifierPattern, Bool.and_eq_true, decide_eq_true_eq] at h
    simp only [List.length_cons]
    omega

theorem diagnosticLabelPattern_length {cs : List Char} (h : diagnosticLabelPattern cs = true) :
    cs.length ≤ 263 := by
  simp only [diagnosticLabelPattern, Bool.and_eq_true, decide_eq_true_eq, List.all_eq_true] at h
  have segment : ∀ part ∈ cs.splitOnP fun c => c = '.' || c = '/', part.length ≤ 32 := by
    intro part hpart
    have := h.2 part hpart
    cases part with
    | nil => simp
    | cons c cs =>
      simp only [isSegment, Bool.and_eq_true, decide_eq_true_eq] at this
      simp only [List.length_cons]
      omega
  have := Text.length_of_splitOnP _ segment
  have := Nat.mul_le_mul_right 33 h.1
  omega

theorem httpOperationPattern_length {cs : List Char} (h : httpOperationPattern cs = true) :
    cs.length ≤ 136 := by
  simp only [httpOperationPattern, List.any_eq_true] at h
  obtain ⟨method, hmethod, h⟩ := h
  have short : ∀ method ∈ httpMethods, (method.toList ++ [' ', '/']).length ≤ 9 := by decide
  have := short method hmethod
  split at h
  · cases h
  · next path hpath =>
    simp only [Bool.and_eq_true, decide_eq_true_eq] at h
    unfold dropLiteral at hpath
    split at hpath
    · cases hpath
      have := h.1
      rw [List.length_drop] at this
      omega
    · cases hpath

theorem operationPattern_length {cs : List Char}
    (h : (httpOperationPattern cs || identifierOperationPattern cs) = true) : cs.length ≤ 264 := by
  rcases Bool.or_eq_true_iff.1 h with h | h
  · exact (httpOperationPattern_length h).trans (by decide)
  · unfold identifierOperationPattern at h
    split at h
    · have := diagnosticLabelPattern_length h
      simp only [List.length_cons]
      omega
    · exact (diagnosticLabelPattern_length h).trans (by decide)

/-! ## Validators -/

section Validators

variable (rt : Runtime)

/-- A label is too short to reach the limits. -/
theorem isCompactJwt_label {s : String} (short : s.toList.length ≤ 264) :
    ∃ jwt, isCompactJwt rt.toInterpreter s = .ok jwt := by
  have depth := rt.depth_le
  have digits := rt.digits_le
  exact isCompactJwt_short (by omega) (by omega)

/-- The validator of a short pattern raises nothing. -/
theorem plainText_total {pattern : List Char → Bool} (short : ∀ cs, pattern cs = true → cs.length ≤ 264)
    (s : String) :
    ¬ (plainText rt.toInterpreter pattern s).Raises := by
  unfold plainText
  split
  · simp
  · next matched =>
    obtain ⟨jwt, hjwt⟩ := isCompactJwt_label rt (short _ (by simpa using matched))
    rw [hjwt]
    cases jwt <;> simp [collect, Outcome.andThen]

theorem safeIdentifier_total (s : String) : ¬ (safeIdentifier rt.toInterpreter s).Raises :=
  plainText_total rt (fun _ h => (identifierPattern_length h).trans (by decide)) s

theorem safeServiceName_total (s : String) : ¬ (safeServiceName rt.toInterpreter s).Raises :=
  plainText_total rt (fun _ h => (identifierPattern_length h).trans (by decide)) s

theorem safeOperationName_total (s : String) : ¬ (safeOperationName rt.toInterpreter s).Raises :=
  plainText_total rt (fun _ h => operationPattern_length h) s

/-- A text field raises only where its check does. -/
theorem nonEmpty_andThen_total {f : String → Outcome PyError String} (total : ∀ s, ¬ (f s).Raises)
    (v : Option Json) :
    ¬ ((nonEmpty v).andThen f).Raises := by
  unfold nonEmpty
  split
  · split
    · simp [Outcome.andThen]
    · exact total _
  · simp [Outcome.andThen]

/-- The parent field does not raise. -/
theorem parentField_total (v : Option Json) : ¬ (StoredTraceSpan.parentField rt.toInterpreter v).Raises := by
  unfold StoredTraceSpan.parentField
  split
  · simp
  · simpa using safeIdentifier_total rt _
  · simp

theorem literal_total (texts : List String) (v : Option Json) : ¬ (literal texts v).Raises := by
  unfold literal
  split
  · split <;> simp
  · simp

theorem strictBool_total (v : Option Json) : ¬ (strictBool v).Raises := by
  unfold strictBool
  split <;> simp

theorem positiveInt_total (v : Option Json) : ¬ (positiveInt v).Raises := by
  unfold positiveInt
  split
  · split <;> simp
  · simp

theorem noExtra_total (fields : List String) (d : JsonObject) : ¬ (noExtra fields d).Raises := by
  simp [noExtra]

/-- A time or a score that a validator reads without raising: missing, or a number a float can represent. -/
def NumberReads : Option Json → Prop
  | none | some (.float _) => True
  | some (.int n) => n < floatBound
  | some _ => False

theorem floatBound_pos : 0 < floatBound := by
  have wide : ∀ a b : Nat, a < b → (0 : Int) < (2 ^ b - 2 ^ a : Nat) := fun a b h =>
    Int.natCast_pos.2 (Nat.sub_pos_of_lt (Nat.pow_lt_pow_right (by decide) h))
  exact wide 970 1024 (by decide)

/-- A number raises exactly if it is too large for a float. -/
theorem number_raises (v : Option Json) : (number v).Raises ↔ ¬ NumberReads v := by
  match v with
  | none | some .null | some (.bool _) | some (.str _) | some (.arr _) | some (.obj _) =>
    simp [number, NumberReads]
  | some (.float (.infinite _)) | some (.float .nan) => simp [number, NumberReads]
  | some (.float (.finite q)) =>
    simp only [number, NumberReads]
    split <;> simp
  | some (.int n) =>
    simp only [number, NumberReads]
    split
    · next negative => simpa using lt_trans negative floatBound_pos
    · split
      · next large => simpa using large
      · next small => simpa using small

end Validators

/-! ## Attributes -/

/-- An attribute map names a server address that nests too deeply. -/
def AddressTooDeep (i : Interpreter) (attributes : Attributes) : Prop :=
  ∃ s, JsonObject.get? attributes "server.address" = some (.str s) ∧ '%' ∉ s.toList ∧ JwtTooDeep i s

section Attributes

variable (rt : Runtime) (serviceName operationName : String)

/-- A related label is decided. -/
theorem isRelatedDiagnosticLabel_total (value : Scalar) (related : List String) :
    ∃ keep, isRelatedDiagnosticLabel rt.toInterpreter value related = .ok keep := by
  cases value with
  | str s =>
    simp only [isRelatedDiagnosticLabel]
    split
    · exact ⟨_, rfl⟩
    · next matched =>
      have short := diagnosticLabelPattern_length (by simpa using matched)
      obtain ⟨jwt, hjwt⟩ := isCompactJwt_label rt (s := s) (by omega)
      rw [hjwt]
      cases jwt <;> exact ⟨_, rfl⟩
  | int | float | bool => exact ⟨_, rfl⟩

/-- Only a server address can stop the filter. -/
theorem keepsAttribute_total {key : String} (other : key ≠ "server.address") (value : Scalar) :
    ∃ keep, keepsAttribute rt.toInterpreter serviceName operationName key value = .ok keep := by
  unfold keepsAttribute
  simp only [other, if_false]
  split_ifs
  · exact ⟨_, rfl⟩
  · exact ⟨_, rfl⟩
  · exact ⟨_, rfl⟩
  · exact isRelatedDiagnosticLabel_total rt value _
  · exact isRelatedDiagnosticLabel_total rt value _
  · exact ⟨_, rfl⟩
  · exact isRelatedDiagnosticLabel_total rt value _
  · exact ⟨_, rfl⟩
  · exact ⟨_, rfl⟩

/-- The filter of a server address. -/
theorem isSafeServerAddress_raises (i : Interpreter) (value : Scalar) :
    (collect (isSafeServerAddress i value)).Raises ↔ ∃ s, value = .str s ∧ '%' ∉ s.toList ∧
      JwtTooDeep i s := by
  cases value with
  | str s =>
    simp only [isSafeServerAddress, Scalar.str.injEq, exists_eq_left']
    split
    · next percent => simp [collect, percent]
    · next plain =>
      cases h : isCompactJwt i s with
      | ok jwt =>
        have shallow : ¬ JwtTooDeep i s := fun deep => by
          rw [isCompactJwt_of_tooDeep deep] at h
          cases h
        cases jwt <;> simp [bind, Except.bind, pure, Except.pure, collect, shallow]
      | error e =>
        rcases isCompactJwt_error_cases h with rfl | ⟨rfl, deep⟩
        · have shallow : ¬ JwtTooDeep i s := fun deep => by
            rw [isCompactJwt_of_tooDeep deep] at h
            cases h
          simp [bind, Except.bind, collect, shallow]
        · simp [bind, Except.bind, collect, plain, deep]
  | int | float | bool => simp [isSafeServerAddress, collect]

/-- Attributes without an address are filtered. -/
theorem safeAttributes_total {attributes : Attributes}
    (other : "server.address" ∉ JsonObject.keys attributes) :
    ∃ safe, safeAttributes rt.toInterpreter serviceName operationName attributes = .ok safe := by
  induction attributes with
  | nil => exact ⟨[], rfl⟩
  | cons item rest ih =>
    obtain ⟨key, value⟩ := item
    simp only [JsonObject.keys, List.map_cons, List.mem_cons, not_or] at other
    obtain ⟨keep, hkeep⟩ := keepsAttribute_total rt serviceName operationName (Ne.symm other.1) value
    obtain ⟨safe, hsafe⟩ := ih other.2
    simp only [safeAttributes, hkeep, hsafe]
    exact ⟨_, rfl⟩

/-- The filter of an attribute map raises for its server address only. -/
theorem safeAttributes_raises {attributes : Attributes} (distinct : (JsonObject.keys attributes).Nodup) :
    (collect (safeAttributes rt.toInterpreter serviceName operationName attributes)).Raises ↔
      AddressTooDeep rt.toInterpreter attributes := by
  induction attributes with
  | nil => simp [safeAttributes, collect, AddressTooDeep]
  | cons item rest ih =>
    obtain ⟨key, value⟩ := item
    simp only [JsonObject.keys, List.map_cons, List.nodup_cons] at distinct
    by_cases address : key = "server.address"
    · subst address
      obtain ⟨safe, hsafe⟩ := safeAttributes_total rt serviceName operationName distinct.1
      have here : keepsAttribute rt.toInterpreter serviceName operationName "server.address" value =
          isSafeServerAddress rt.toInterpreter value := rfl
      have whole : (collect (safeAttributes rt.toInterpreter serviceName operationName
          (("server.address", value) :: rest))).Raises ↔
          (collect (isSafeServerAddress rt.toInterpreter value)).Raises := by
        simp only [safeAttributes, hsafe, here]
        cases isSafeServerAddress rt.toInterpreter value with
        | ok keep => simp [bind, Except.bind, pure, Except.pure, collect]
        | error e => cases e <;> simp [bind, Except.bind, collect]
      rw [whole, isSafeServerAddress_raises]
      simp [AddressTooDeep]
    · obtain ⟨keep, hkeep⟩ := keepsAttribute_total rt serviceName operationName address value
      have whole :
        (collect (safeAttributes rt.toInterpreter serviceName operationName ((key, value) :: rest))).Raises ↔
          (collect (safeAttributes rt.toInterpreter serviceName operationName rest)).Raises := by
        simp only [safeAttributes, hkeep]
        cases safeAttributes rt.toInterpreter serviceName operationName rest with
        | ok safe => simp [bind, Except.bind, pure, Except.pure, collect]
        | error e => cases e <;> simp [bind, Except.bind, collect]
      rw [whole, ih distinct.2]
      simp [AddressTooDeep, JsonObject.get?_cons, address]

end Attributes

end SreAgent.Trace
