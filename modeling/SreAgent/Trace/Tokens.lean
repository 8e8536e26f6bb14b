import Mathlib
import SreAgent.Trace.Labels

/-!
# Tokens that cannot be read

A text in the form of a compact JWT whose header is a long numeral, or is nested too deeply: the
exception of `json.loads` leaves `_is_compact_jwt`.
-/

namespace SreAgent.Trace
open Base JsonParse

/-- A text with the form of a JWT, its header `n` times four digits of Base64. -/
def token (quad : String) (n : Nat) : String :=
  String.ofList ((List.replicate n quad.toList).flatten ++ '.' :: ("e30".toList ++ '.' :: "e30".toList))

/-- The header is `3 * n` opening brackets. -/
def nestedToken (n : Nat) : String := token "W1tb" n

/-- The header is a numeral of `3 * n` ones. -/
def numeralToken (n : Nat) : String := token "MTEx" n

section

variable {i : Interpreter} {n : Nat}

/-! ## Documents -/

/-- Brackets nest one level each. -/
theorem value_nested {fuel depth : Nat} (enough : 2 * depth < fuel) (rest : List Char) :
    value i fuel depth (List.replicate (depth + 1) '[' ++ rest) = .error .recursion := by
  induction depth generalizing fuel with
  | zero =>
    obtain ⟨fuel, rfl⟩ : ∃ f, fuel = f + 1 := ⟨fuel - 1, by omega⟩
    rfl
  | succ depth ih =>
    obtain ⟨fuel, rfl⟩ : ∃ f, fuel = f + 2 := ⟨fuel - 2, by omega⟩
    have inner : elements i (fuel + 1) depth [] (List.replicate (depth + 1) '[' ++ rest) =
        .error .recursion := by
      rw [elements, ih (by omega)]
    exact inner

/-- Too many brackets reach the nesting limit. -/
theorem parse_nested {m : Nat} (deep : i.maxDepth < m) :
    parse i (List.replicate m '[') = .error .recursion := by
  obtain ⟨m, rfl⟩ : ∃ k, m = k + 1 := ⟨m - 1, by omega⟩
  have split : List.replicate (m + 1) '[' = List.replicate (i.maxDepth + 1) '[' ++
      List.replicate (m - i.maxDepth) '[' := by
    rw [List.replicate_append_replicate]
    congr 1
    omega
  have start : skipBlank (List.replicate (m + 1) '[') = List.replicate (m + 1) '[' := rfl
  rw [parse, start, List.length_replicate]
  rw [split, value_nested (by omega)]

/-- Too many digits reach the digit limit. -/
theorem parse_numeral {m : Nat} (long : i.maxDigits < m) :
    parse i (List.replicate m '1') = .error .intTooLong := by
  obtain ⟨m, rfl⟩ : ∃ k, m = k + 1 := ⟨m - 1, by omega⟩
  have digits : (List.replicate (m + 1) '1').takeWhile isDigit = List.replicate (m + 1) '1' := by
    rw [List.takeWhile_replicate, if_pos (by decide)]
  have read : JsonParse.number i (List.replicate (m + 1) '1') = .error .intTooLong := by
    have whole : wholeOf (List.replicate (m + 1) '1') = List.replicate (m + 1) '1' := digits
    have sign : signOf (List.replicate (m + 1) '1') = [] := rfl
    simp only [JsonParse.number, sign, List.length_nil, List.drop_zero, whole, List.length_replicate]
    rw [if_neg (by simp), List.drop_eq_nil_of_le (by simp)]
    exact if_pos long
  have start : value i (2 * (m + 1) + 2) i.maxDepth (List.replicate (m + 1) '1') =
      JsonParse.number i (List.replicate (m + 1) '1') := by
    have literal : ∀ c cs, c ≠ '1' → dropLiteral (c :: cs) (List.replicate (m + 1) '1') = none := by
      intro c cs ne
      rw [dropLiteral, if_neg]
      intro same
      exact ne (List.cons.inj same).1.symm
    rw [List.replicate_succ, value.eq_def]
    dsimp only
    rw [if_neg (by decide), if_neg (by decide), if_neg (by decide), ← List.replicate_succ]
    rw [show "null".toList = 'n' :: "ull".toList from rfl, show "true".toList = 't' :: "rue".toList from rfl,
      show "false".toList = 'f' :: "alse".toList from rfl, show "NaN".toList = 'N' :: "aN".toList from rfl,
      show "Infinity".toList = 'I' :: "nfinity".toList from rfl,
      show "-Infinity".toList = '-' :: "Infinity".toList from rfl]
    simp only [literal _ _ (show 'n' ≠ '1' by decide), literal _ _ (show 't' ≠ '1' by decide),
      literal _ _ (show 'f' ≠ '1' by decide), literal _ _ (show 'N' ≠ '1' by decide),
      literal _ _ (show 'I' ≠ '1' by decide), literal _ _ (show '-' ≠ '1' by decide)]
  have blank : skipBlank (List.replicate (m + 1) '1') = List.replicate (m + 1) '1' := rfl
  rw [parse, blank, List.length_replicate, start, read]

/-! ## Tokens -/

/-- A group of four digits that decodes to one byte decodes to copies of it. -/
theorem decode_group (quad : String) (b : UInt8)
    (group : ∀ rest, Base64.decode (quad.toList ++ rest) = b :: b :: b :: Base64.decode rest) (n : Nat) :
    Base64.decode (List.replicate n quad.toList).flatten = List.replicate (3 * n) b := by
  induction n with
  | zero => rfl
  | succ n ih =>
    rw [List.replicate_succ, List.flatten_cons, group, ih]
    rfl

/-- Bytes of one ASCII character are read as its text. -/
theorem loads_ascii {b : UInt8} {c : Char} {m : Nat} (ascii : 0 < b.toNat ∧ b.toNat < 128)
    (value : Char.ofNat b.toNat = c) (long : 4 ≤ m) :
    JsonBytes.loads i (List.replicate m b) = parse i (List.replicate m c) := by
  obtain ⟨m, rfl⟩ : ∃ k, m = k + 4 := ⟨m - 4, by omega⟩
  have positive : b ≠ 0 := by
    rintro rfl
    exact absurd ascii.1 (by decide)
  have plain : b ≠ 254 ∧ b ≠ 255 ∧ b ≠ 239 := by
    refine ⟨?_, ?_, ?_⟩ <;> rintro rfl <;> exact absurd ascii.2 (by decide)
  have encoding : JsonBytes.detectEncoding (List.replicate (m + 4) b) = .utf8 := by
    simp [JsonBytes.detectEncoding, List.replicate_succ, positive, plain]
  have decoded : ∀ m, Utf.decodeUtf8 true (List.replicate m b) = some (List.replicate m c) := by
    intro m
    induction m with
    | zero => rfl
    | succ m ih =>
      rw [List.replicate_succ, Utf.decodeUtf8.eq_def]
      dsimp only
      rw [if_pos ascii.2, ih, value]
      rfl
  rw [JsonBytes.loads, encoding, JsonBytes.decodeAs, decoded]

/-- A token has the form of a compact JWT. -/
theorem jwtParts_token (quad : String) (digits : Base64.isPart quad.toList = true)
    (four : quad.toList.length = 4) (pos : 0 < n) :
    jwtParts (token quad n) = some ((List.replicate n quad.toList).flatten, "e30".toList) := by
  have clean : ∀ c ∈ (List.replicate n quad.toList).flatten, (Base64.digit c).isSome := by
    intro c hc
    obtain ⟨part, hpart, hc⟩ := List.mem_flatten.1 hc
    rw [List.eq_of_mem_replicate hpart] at hc
    exact (Base64.isPart_iff.1 digits).2 c hc
  have undotted : ('.' : Char) ∉ (List.replicate n quad.toList).flatten :=
    fun dot => absurd (clean _ dot) (by decide)
  have length : (List.replicate n quad.toList).flatten.length = 4 * n := by
    rw [List.length_flatten, List.map_replicate, List.sum_replicate, four]
    simp [Nat.mul_comm]
  have nonempty : (List.replicate n quad.toList).flatten ≠ [] := by
    intro none_
    rw [none_] at length
    simp at length
    omega
  have part : Base64.isPart (List.replicate n quad.toList).flatten = true :=
    Base64.isPart_iff.2 ⟨nonempty, clean⟩
  rw [jwtParts, token, String.toList_ofList, List.splitOn_append_cons_self_of_not_mem undotted,
    show ("e30".toList ++ '.' :: "e30".toList).splitOn '.' = ["e30".toList, "e30".toList] from by decide]
  dsimp only
  rw [if_neg]
  simp only [List.any_cons, List.any_nil, part, length]
  simp
  decide

theorem isCompactJwt_token {quad : String} {e : PyError} {cause : LoadsError}
    (digits : Base64.isPart quad.toList = true) (four : quad.toList.length = 4) (pos : 0 < n)
    (uncaught_ : uncaught cause = some e)
    (fails : JsonBytes.loads i (Base64.decode (List.replicate n quad.toList).flatten) = .error cause) :
    isCompactJwt i (token quad n) = .error e := by
  rw [isCompactJwt, jwtParts_token quad digits four pos]
  simp only [decodeBase64urlJsonObject, fails, bind, Except.bind, uncaught_]

/-- The header of nested brackets raises. -/
theorem isCompactJwt_nested (deep : i.maxDepth < 3 * n) (two : 2 ≤ n) :
    isCompactJwt i (nestedToken n) = .error .recursionError := by
  have fails : JsonBytes.loads i (Base64.decode (List.replicate n "W1tb".toList).flatten) =
      .error .recursion := by
    rw [decode_group "W1tb" 91 (fun _ => rfl), loads_ascii (c := '[') (by decide) (by decide) (by omega),
      parse_nested deep]
  exact isCompactJwt_token (by decide) (by decide) (by omega) rfl fails

theorem isCompactJwt_numeral (long : i.maxDigits < 3 * n) (two : 2 ≤ n) :
    isCompactJwt i (numeralToken n) = .error .valueError := by
  have fails : JsonBytes.loads i (Base64.decode (List.replicate n "MTEx".toList).flatten) =
      .error .intTooLong := by
    rw [decode_group "MTEx" 49 (fun _ => rfl), loads_ascii (c := '1') (by decide) (by decide) (by omega),
      parse_numeral long]
  exact isCompactJwt_token (by decide) (by decide) (by omega) rfl fails

/-- A token as a server address. -/
theorem keepsAddress_token {service operation : String} {quad : String} {e : PyError}
    (digits : Base64.isPart quad.toList = true) (raises : isCompactJwt i (token quad n) = .error e) :
    keepsAttribute i service operation "server.address" (.str (token quad n)) = .error e := by
  have plain : ('%' : Char) ∉ (token quad n).toList := by
    rw [token, String.toList_ofList]
    intro percent
    rcases List.mem_append.1 percent with header | rest
    · obtain ⟨part, hpart, hc⟩ := List.mem_flatten.1 header
      rw [List.eq_of_mem_replicate hpart] at hc
      exact absurd ((Base64.isPart_iff.1 digits).2 _ hc) (by decide)
    · exact absurd rest (by decide)
  have here : keepsAttribute i service operation "server.address" (.str (token quad n)) =
      isSafeServerAddress i (.str (token quad n)) := rfl
  rw [here, isSafeServerAddress, if_neg plain, raises]
  rfl

end

end SreAgent.Trace
