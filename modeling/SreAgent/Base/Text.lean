import Mathlib

/-!
# Text operations of Python

`str.strip`, `str.split`, `str.encode`, on Lean strings. Whitespace is what `str.isspace`
accepts: the separators of Unicode and the control characters `\x1c` to `\x1f`.
-/

namespace SreAgent.Base.Text

/-- `c.isspace()`. -/
def isSpace (c : Char) : Bool :=
  let n := c.toNat
  (9 ≤ n ∧ n ≤ 13) || (28 ≤ n ∧ n ≤ 32) || n = 133 || n = 160 || n = 5760 || (8192 ≤ n ∧ n ≤ 8202) ||
    n = 8232 ||
    n = 8233 || n = 8239 || n = 8287 || n = 12288

/-- Drop leading and trailing whitespace from characters. -/
def stripChars (cs : List Char) : List Char := ((cs.dropWhile isSpace).reverse.dropWhile isSpace).reverse

/-- `s.strip()`. -/
def strip (s : String) : String := String.ofList (stripChars s.toList)

/-- `s.encode("utf-8")`. -/
def utf8 (s : String) : List UInt8 := s.toUTF8.data.toList

/-- A text is determined by its bytes. -/
theorem utf8_injective {s t : String} (h : utf8 s = utf8 t) : s = t := by
  refine String.toByteArray_inj.1 (ByteArray.ext ?_)
  exact Array.toList_inj.1 h

/-- Stripping leaves text without whitespace alone. -/
theorem strip_of_no_space {s : String} (h : ∀ c ∈ s.toList, isSpace c = false) : strip s = s := by
  have keep : ∀ cs : List Char, (∀ c ∈ cs, isSpace c = false) → cs.dropWhile isSpace = cs := by
    intro cs hcs
    cases cs with
    | nil => rfl
    | cons c cs => simp [hcs c List.mem_cons_self]
  rw [strip, stripChars, keep _ h, keep _ fun c hc => h c (List.mem_reverse.1 hc), List.reverse_reverse,
    String.ofList_toList]

/-! ## Splitting -/

section Split

variable {α : Type*} (p : α → Bool)

theorem splitOnPPrepend_length (l acc : List α) :
    ((l.splitOnPPrepend p acc).map fun part => part.length + 1).sum = l.length + acc.length + 1 := by
  induction l generalizing acc with
  | nil => simp [List.splitOnPPrepend]
  | cons a l ih =>
    rw [List.splitOnPPrepend]
    split
    · rw [List.map_cons, List.sum_cons, ih]
      simp only [List.length_reverse, List.length_cons, List.length_nil]
      omega
    · rw [ih]
      simp only [List.length_cons]
      omega

/-- Parts and separators make up the whole. -/
theorem splitOnP_length (l : List α) : ((l.splitOnP p).map fun part => part.length + 1).sum = l.length + 1 :=
  splitOnPPrepend_length p l []

/-- Few short parts make a short whole. -/
theorem length_of_splitOnP {l : List α} {n : Nat} (short : ∀ part ∈ l.splitOnP p, part.length ≤ n) :
    l.length + 1 ≤ (l.splitOnP p).length * (n + 1) := by
  rw [← splitOnP_length p l, ← List.length_map (fun part : List α => part.length + 1), ← smul_eq_mul]
  refine List.sum_le_card_nsmul _ _ fun k hk => ?_
  obtain ⟨part, hpart, rfl⟩ := List.mem_map.1 hk
  exact Nat.succ_le_succ (short part hpart)

/-- No part is longer than the whole. -/
theorem length_le_of_mem_splitOnP {l part : List α} (h : part ∈ l.splitOnP p) : part.length ≤ l.length := by
  have := List.single_le_sum (by simp) _ (List.mem_map_of_mem (f := fun part : List α => part.length + 1) h)
  rw [splitOnP_length] at this
  omega

theorem splitOnPPrepend_clean {l acc part : List α} (clean : ∀ x ∈ acc, p x = false)
    (h : part ∈ l.splitOnPPrepend p acc) : ∀ x ∈ part, p x = false := by
  induction l generalizing acc with
  | nil =>
    rw [List.splitOnPPrepend_nil, List.mem_singleton] at h
    subst h
    exact fun x hx => clean x (List.mem_reverse.1 hx)
  | cons a l ih =>
    rw [List.splitOnPPrepend] at h
    split at h
    · rcases List.mem_cons.1 h with rfl | h
      · exact fun x hx => clean x (List.mem_reverse.1 hx)
      · exact ih (by simp) h
    · next other =>
      exact ih (List.forall_mem_cons.2 ⟨by simpa using other, clean⟩) h

/-- No part holds a separator. -/
theorem clean_of_mem_splitOnP {l part : List α} (h : part ∈ l.splitOnP p) : ∀ x ∈ part, p x = false :=
  splitOnPPrepend_clean p (by simp) h

end Split

end SreAgent.Base.Text
