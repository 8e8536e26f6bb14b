import Mathlib
import SreAgent.Base.JsonRoundTrip
import SreAgent.Base.Least
import SreAgent.Base.Options
import SreAgent.Ingestion.Normalizer
import SreAgent.Trace.Labels

/-!
# Normalization rules as they are written

A rule is a record of texts and numbers. Its validators read paths and formats; the engine splits every
path again, looks its root up as an attribute and its format up in a dictionary. Both lookups can raise.
-/

namespace SreAgent.Ingestion
open Base Trace JsonParse

/-! ## Records -/

/-- `Literal["exists", "equals", "prefix", "format"]`. -/
inductive OperatorName where
  | exists_ | equals | prefix_ | format
  deriving DecidableEq, Repr

/-- `RuleCondition`. -/
structure ConditionFields where
  path : String
  operator : OperatorName
  value : Option String

/-- `RuleOutput`. -/
structure OutputFields where
  provider : Provider
  resourceType : String
  scopePath : Option String
  resourceIdPath : Option String
  resourceNamePath : Option String
  displayUnit : Option String

/-- `NormalizationRule`. -/
structure RuleFields where
  id : Uuid
  sourceId : Option Uuid
  name : String
  version : Int
  priority : Int
  conditions : List ConditionFields
  output : OutputFields
  enabled : Bool

/-! ## Validators -/

/-- A field out of its bounds, or the text of a `ValueError`. -/
inductive InvalidRule where
  | bounds (field : String)
  | valueError (message : String)
  deriving DecidableEq, Repr

def Root.name : Root → String
  | .labels => "labels"
  | .annotations => "annotations"
  | .values => "values"

/-- The root of a path and what follows its dot. -/
def afterRoot (root : Root) (path : String) : Option (List Char) :=
  dropLiteral (root.name.toList ++ ['.']) path.toList

/-- `_SAFE_PATH.fullmatch(path)`: a root, a dot and at least one more character. -/
def SafePath.ofRoot (root : Root) (path : String) : Option SafePath :=
  match afterRoot root path with
  | none => none
  | some rest =>
    if rest ≠ [] ∧ rest.all isNameChar then some ⟨root, (rest.splitOn '.').map String.ofList, by simp⟩
      else none

def SafePath.read (path : String) : Option SafePath :=
  [Root.labels, .annotations, .values].findSome? fun root => SafePath.ofRoot root path

/-- The keys of `_SAFE_FORMATS`. -/
def SafeFormat.named (name : String) : Option SafeFormat :=
  if name = "aws_account_id" then some .awsAccountId
  else if name = "gcp_project_id" then some .gcpProjectId
  else if name = "uuid" then some .uuid
  else if name = "non_blank" then some .nonBlank
  else none

/-- `validate_declarative_condition`, and the condition it lets pass. -/
def ConditionFields.validate (c : ConditionFields) : Except InvalidRule RuleCondition :=
  match SafePath.read c.path with
  | none => .error (.valueError "condition path is not allowed")
  | some path =>
    match c.operator with
    | .exists_ =>
      if c.value = none then .ok ⟨path, .exists_⟩ else .error (.valueError "exists does not accept a value")
    | .equals =>
      if c.value.getD "" = "" then .error (.valueError "operator requires a non-empty value")
      else .ok ⟨path, .equals (c.value.getD "")⟩
    | .prefix_ =>
      if c.value.getD "" = "" then .error (.valueError "operator requires a non-empty value")
      else .ok ⟨path, .prefix_ (c.value.getD "")⟩
    | .format =>
      match c.value.bind SafeFormat.named with
      | none => .error (.valueError "format is not allowed")
      | some f => .ok ⟨path, .format f⟩

/-- A declared path, if it is of `_SAFE_PATH`. -/
def readOutputPath : Option String → Except InvalidRule (Option SafePath)
  | none => .ok none
  | some path =>
    match SafePath.read path with
    | none => .error (.valueError "output path is not allowed")
    | some safe => .ok (some safe)

/-- `^[a-z][a-z0-9_]{0,63}$`. -/
def resourceTypePattern : List Char → Bool
  | [] => false
  | c :: cs => c.isLower && cs.length ≤ 63 && cs.all fun c => isLowerOrDigit c || c = '_'

/-- The bounds of `RuleOutput`, and `validate_output_paths`. -/
def OutputFields.validate (output : OutputFields) : Except InvalidRule RuleOutput := do
  unless resourceTypePattern output.resourceType.toList do throw (.bounds "resource_type")
  unless output.displayUnit.all fun unit => 1 ≤ unit.length &&
    unit.length ≤ 64 do throw (.bounds "display_unit")
  let scopePath ← readOutputPath output.scopePath
  let resourceIdPath ← readOutputPath output.resourceIdPath
  let resourceNamePath ← readOutputPath output.resourceNamePath
  return ⟨output.provider, output.resourceType, scopePath, resourceIdPath, resourceNamePath,
    output.displayUnit⟩

def validateConditions : List ConditionFields → Except InvalidRule (List RuleCondition)
  | [] => .ok []
  | c :: rest => do
    let condition ← c.validate
    let conditions ← validateConditions rest
    return condition :: conditions

/-- `NormalizationRule.model_validate`. -/
def RuleFields.validate (rule : RuleFields) : Except InvalidRule NormalizationRule := do
  unless 1 ≤ rule.name.length && rule.name.length ≤ 128 do throw (.bounds "name")
  unless 0 < rule.version do throw (.bounds "version")
  unless rule.conditions ≠ [] do throw (.bounds "conditions")
  let conditions ← validateConditions rule.conditions
  let output ← rule.output.validate
  return ⟨rule.id, rule.version.toNat, rule.priority, conditions, output, rule.enabled⟩

/-- Rules that passed their validators. -/
def RuleFields.Validated (rule : RuleFields) : Prop := ∃ typed, rule.validate = .ok typed

/-! ## The engine -/

/-- What evaluating a rule can raise. -/
inductive RuleError where
  | valueError
  | attributeError (name : String)
  | keyError (key : String)
  deriving DecidableEq, Repr

/-- `getattr(alert, root_name)`. -/
def CanonicalBaseAlert.getattr (alert : CanonicalBaseAlert) (name : String) : Except RuleError JsonObject :=
  if name = "labels" then .ok alert.labels
  else if name = "annotations" then .ok alert.annotations
  else if name = "values" then .ok alert.values
  else .error (.attributeError name)

/-- `_resolve_path`: `none` is not found. -/
def CanonicalBaseAlert.resolve (alert : CanonicalBaseAlert) (path : String) :
    Except RuleError (Option Json) :=
  match (path.toList.splitOn '.').map String.ofList with
  | [] => .error .valueError
  | root :: parts =>
    match alert.getattr root with
    | .error e => .error e
    | .ok current =>
      match JsonObject.get? current (".".intercalate parts) with
      | some v => .ok (some v)
      | none => .ok (descend (.obj current) parts)

/-- `_SAFE_FORMATS[name]`. -/
def safeFormat (name : String) : Except RuleError SafeFormat :=
  match SafeFormat.named name with
  | none => .error (.keyError name)
  | some f => .ok f

/-- One turn of the loop of `_matches`. -/
def ConditionFields.holds (alert : CanonicalBaseAlert) (c : ConditionFields) : Except RuleError Bool := do
  let value ← alert.resolve c.path
  match c.operator with
  | .exists_ => return match value with | none | some .null => false | some _ => true
  | .equals => return match value with | some (.str s) => c.value = some s | _ => false
  | .prefix_ => return match value with | some (.str s) => (c.value.getD "").toList <+: s.toList | _ => false
  | .format =>
    let pattern ← safeFormat (c.value.getD "")
    return match value with | some (.str s) => pattern.matches s.toList | _ => false

def allHold (alert : CanonicalBaseAlert) : List ConditionFields → Except RuleError Bool
  | [] => return true
  | c :: rest => do
    if ← c.holds alert then allHold alert rest else return false

/-- `SafeRuleEngine._matches`. -/
def RuleFields.matches (alert : CanonicalBaseAlert) (rule : RuleFields) : Except RuleError Bool :=
  allHold alert rule.conditions

/-- One turn of the loop of `_resource`: `none` ends it. -/
def extractText (alert : CanonicalBaseAlert) : Option String → Except RuleError (Option (Option String))
  | none => return some none
  | some path => do
    match ← alert.resolve path with
    | some (.str s) => return if Text.strip s = "" then none else some (some s)
    | _ => return none

/-- `SafeRuleEngine._resource`. -/
def OutputFields.resource (output : OutputFields) (alert : CanonicalBaseAlert) :
    Except RuleError (Option NormalizedResource) := do
  let some scopeId ← extractText alert output.scopePath | return none
  let some resourceId ← extractText alert output.resourceIdPath | return none
  let some resourceName ← extractText alert output.resourceNamePath | return none
  return some ⟨output.provider, output.resourceType, scopeId, resourceId, resourceName, output.displayUnit⟩

/-- `[rule for rule in rules if matches(rule, alert)]`. -/
def matchingRules (alert : CanonicalBaseAlert) : List RuleFields → Except RuleError (List RuleFields)
  | [] => return []
  | rule :: rest => do
    let found ← rule.matches alert
    let others ← matchingRules alert rest
    return if found then rule :: others else others

/-- The end of `normalize`, for the one rule that is left. -/
def RuleFields.normalize (rule : RuleFields) (alert : CanonicalBaseAlert) (provider : ProviderDecision) :
    Except RuleError NormalizationResult :=
  if rule.output.provider ≠ provider.provider
    then .ok (unresolved .UNCLASSIFIED "normalization_provider_conflict")
  else
    match rule.output.resource alert with
    | .error e => .error e
    | .ok none => .ok (unresolved .UNCLASSIFIED "normalization_output_invalid")
    | .ok (some resource) => .ok ⟨.NORMALIZED, some resource, some (rule.id, rule.version.toNat), []⟩

/-- `SafeRuleEngine(rules).normalize(alert, provider)`. -/
def normalizeRules (rules : List RuleFields) (alert : CanonicalBaseAlert) (provider : ProviderDecision) :
    Except RuleError NormalizationResult :=
  if provider.errors ≠ [] then .ok (unresolved .VALIDATION_FAILED "provider_validation_failed")
  else
    match matchingRules alert (rules.filter (·.enabled)) with
    | .error e => .error e
    | .ok found =>
      match found.map (·.priority) with
      | [] => .ok (unresolved .UNCLASSIFIED "normalization_rule_not_found")
      | p :: ps =>
        match found.filter fun rule => rule.priority = ps.foldl min p with
        | [rule] => rule.normalize alert provider
        | _ => .ok (unresolved .UNCLASSIFIED "normalization_rule_conflict")

/-! ## Validated rules do not raise -/

variable {alert : CanonicalBaseAlert} {provider : ProviderDecision}

/-- A path splits into its root and the rest. -/
theorem splitOn_afterRoot {root : Root} {path : String} {rest : List Char}
    (h : afterRoot root path = some rest) :
    path.toList.splitOn '.' = root.name.toList :: rest.splitOn '.' := by
  have split : path.toList = root.name.toList ++ '.' :: rest := by
    unfold afterRoot dropLiteral at h
    split at h
    · next same =>
      cases h
      calc path.toList = path.toList.take (root.name.toList ++ ['.']).length ++
            path.toList.drop (root.name.toList ++ ['.']).length := (List.take_append_drop _ _).symm
        _ = _ := by rw [same, List.append_assoc, List.singleton_append]
    · cases h
  have plain : ∀ c ∈ root.name.toList, (c == '.') = false := by
    have all : root.name.toList.all (fun c => !(c == '.')) = true := by cases root <;> decide
    intro c mem
    simpa only [Bool.not_eq_true'] using List.all_eq_true.1 all c mem
  rw [split, List.splitOn_eq_splitOnP, List.splitOn_eq_splitOnP]
  exact List.splitOnP_append_cons_of_forall_mem plain '.' (by decide) rest

theorem getattr_name (root : Root) : alert.getattr root.name = .ok (alert.root root) := by cases root <;> rfl

/-- A path that is safe resolves as the safe path does. -/
theorem resolve_of_read {path : String} {safe : SafePath} (h : SafePath.read path = some safe) :
    alert.resolve path = .ok (resolvePath alert safe) := by
  obtain ⟨root, -, h⟩ := List.exists_of_findSome?_eq_some h
  unfold SafePath.ofRoot at h
  split at h
  · cases h
  · next rest hrest =>
    split at h
    · cases h
      unfold CanonicalBaseAlert.resolve resolvePath
      rw [splitOn_afterRoot hrest, List.map_cons, String.ofList_toList]
      simp only [getattr_name]
      cases JsonObject.get? (alert.root root) (".".intercalate ((rest.splitOn '.').map String.ofList)) <;> rfl
    · cases h

theorem safeFormat_of_named {value : Option String} {f : SafeFormat}
    (h : value.bind SafeFormat.named = some f) :
    safeFormat (value.getD "") = .ok f := by
  obtain ⟨name, rfl, named⟩ := Option.bind_eq_some_iff.1 h
  unfold safeFormat
  rw [Option.getD_some, named]

theorem value_of_nonempty {value : Option String} (h : ¬ value.getD "" = "") :
    value = some (value.getD "") := by
  cases value with
  | none => exact absurd rfl h
  | some s => rfl

/-- A validated condition holds where its typed form does. -/
theorem holds_of_validate {c : ConditionFields} {condition : RuleCondition} (h : c.validate = .ok condition) :
    c.holds alert = .ok (condition.holds alert) := by
  unfold ConditionFields.validate at h
  unfold ConditionFields.holds
  cases hpath : SafePath.read c.path with
  | none =>
    rw [hpath] at h
    cases h
  | some path =>
    rw [hpath] at h
    rw [resolve_of_read hpath]
    change (match c.operator with | .exists_ => _ | .equals => _ | .prefix_ => _ | .format => _) = _
    dsimp only at h
    cases hop : c.operator with
    | exists_ =>
      rw [hop] at h
      dsimp only at h ⊢
      split at h
      · cases h
        unfold RuleCondition.holds
        cases resolvePath alert path with
        | none => rfl
        | some v => cases v <;> rfl
      · cases h
    | equals =>
      rw [hop] at h
      dsimp only at h ⊢
      split at h
      · cases h
      · next nonempty =>
        cases h
        rw [value_of_nonempty nonempty]
        unfold RuleCondition.holds
        cases resolvePath alert path with
        | none => rfl
        | some v => cases v <;> simp [pure, Except.pure, eq_comm]
    | prefix_ =>
      rw [hop] at h
      dsimp only at h ⊢
      split at h
      · cases h
      · cases h
        unfold RuleCondition.holds
        cases resolvePath alert path with
        | none => rfl
        | some v => cases v <;> rfl
    | format =>
      rw [hop] at h
      dsimp only at h ⊢
      split at h
      · cases h
      · next f named =>
        cases h
        rw [safeFormat_of_named named]
        unfold RuleCondition.holds
        cases resolvePath alert path with
        | none => rfl
        | some v => cases v <;> rfl

/-- Validated conditions hold where their typed forms do. -/
theorem allHold_of_validate {cs : List ConditionFields} {conditions : List RuleCondition}
    (h : validateConditions cs = .ok conditions) :
    allHold alert cs = .ok (conditions.all (·.holds alert)) := by
  induction cs generalizing conditions with
  | nil =>
    cases h
    rfl
  | cons c rest ih =>
    obtain ⟨condition, first, h⟩ := bind_eq_ok.1 h
    obtain ⟨others, later, h⟩ := bind_eq_ok.1 h
    cases h
    unfold allHold
    rw [holds_of_validate first, List.all_cons]
    change (if condition.holds alert = true then allHold alert rest else .ok false) = _
    rw [ih later]
    cases condition.holds alert <;> rfl

/-- A validated path extracts what its safe path does. -/
theorem extractText_of_read {path : Option String} {safe : Option SafePath}
    (h : readOutputPath path = .ok safe) :
    extractText alert path = .ok (extracted alert safe) := by
  cases path with
  | none =>
    cases h
    rfl
  | some path =>
    unfold readOutputPath at h
    dsimp only at h
    split at h
    · cases h
    · next safe hpath =>
      cases h
      unfold extractText extracted
      dsimp only
      rw [resolve_of_read hpath]
      cases resolvePath alert safe with
      | none => rfl
      | some v => cases v <;> rfl

/-- What validated outputs are. -/
theorem output_of_validate {output : OutputFields} {typed : RuleOutput} (h : output.validate = .ok typed) :
    readOutputPath output.scopePath = .ok typed.scopePath ∧ readOutputPath output.resourceIdPath =
      .ok typed.resourceIdPath ∧
      readOutputPath output.resourceNamePath = .ok typed.resourceNamePath ∧ typed.provider = output.provider ∧
        typed.resourceType = output.resourceType ∧ typed.displayUnit = output.displayUnit := by
  unfold OutputFields.validate at h
  dsimp only at h
  split at h
  · split at h
    · obtain ⟨scopePath, hscope, h⟩ := bind_eq_ok.1 h
      obtain ⟨resourceIdPath, hid, h⟩ := bind_eq_ok.1 h
      obtain ⟨resourceNamePath, hname, h⟩ := bind_eq_ok.1 h
      cases h
      exact ⟨hscope, hid, hname, rfl, rfl, rfl⟩
    · cases h
  · cases h

/-- A validated output gives the resource its typed form gives. -/
theorem resource_of_validate {output : OutputFields} {typed : RuleOutput} (h : output.validate = .ok typed) :
    output.resource alert = .ok (typed.resource alert) := by
  obtain ⟨hscope, hid, hname, provider, resourceType, displayUnit⟩ := output_of_validate h
  unfold OutputFields.resource RuleOutput.resource
  rw [extractText_of_read hscope, extractText_of_read hid, extractText_of_read hname, provider,
    resourceType, displayUnit]
  cases extracted alert typed.scopePath with
  | none => rfl
  | some scopeId =>
    cases extracted alert typed.resourceIdPath with
    | none => rfl
    | some resourceId => cases extracted alert typed.resourceNamePath <;> rfl

/-- What a validated rule is. -/
theorem rule_of_validate {rule : RuleFields} {typed : NormalizationRule} (h : rule.validate = .ok typed) :
    validateConditions rule.conditions = .ok typed.conditions ∧ rule.output.validate = .ok typed.output ∧
      typed.id = rule.id ∧ typed.version = rule.version.toNat ∧ typed.priority = rule.priority ∧
        typed.enabled = rule.enabled := by
  unfold RuleFields.validate at h
  dsimp only at h
  split at h
  · split at h
    · split at h
      · obtain ⟨conditions, hconditions, h⟩ := bind_eq_ok.1 h
        obtain ⟨output, houtput, h⟩ := bind_eq_ok.1 h
        cases h
        exact ⟨hconditions, houtput, rfl, rfl, rfl, rfl⟩
      · cases h
    · cases h
  · cases h

theorem matches_of_validate {rule : RuleFields} {typed : NormalizationRule} (h : rule.validate = .ok typed) :
    rule.matches alert = .ok (typed.conditions.all (·.holds alert)) :=
  allHold_of_validate (rule_of_validate h).1

/-! ## The rules of least priority -/

/-- An enabled rule all of whose conditions hold. -/
def RuleFields.Matching (alert : CanonicalBaseAlert) (rule : RuleFields) : Prop :=
  rule.enabled = true ∧ rule.matches alert = .ok true

def RuleFields.matched (alert : CanonicalBaseAlert) (rule : RuleFields) : Bool :=
  match rule.matches alert with
  | .ok found => rule.enabled && found
  | .error _ => false

theorem matched_iff {rule : RuleFields} : rule.matched alert = true ↔ rule.Matching alert := by
  unfold RuleFields.matched RuleFields.Matching
  cases rule.matches alert with
  | error e => simp
  | ok found => simp

/-- Where no rule raises, the matching ones are the enabled ones that match. -/
theorem matchingRules_eq {rules : List RuleFields}
    (total : ∀ rule ∈ rules, ∃ found, rule.matches alert = .ok found) :
    matchingRules alert (rules.filter (·.enabled)) = .ok (rules.filter (·.matched alert)) := by
  induction rules with
  | nil => rfl
  | cons rule rest ih =>
    obtain ⟨found, first⟩ := total rule List.mem_cons_self
    have later := ih fun other mem => total other (List.mem_cons_of_mem rule mem)
    have matched : rule.matched alert = (rule.enabled && found) := by
      unfold RuleFields.matched
      rw [first]
    cases enabled : rule.enabled with
    | false =>
      rw [List.filter_cons_of_neg (by simp [enabled]), List.filter_cons_of_neg (by simp [matched, enabled])]
      exact later
    | true =>
      rw [List.filter_cons_of_pos enabled]
      unfold matchingRules
      rw [first, later]
      cases found with
      | false => rw [List.filter_cons_of_neg (by simp [matched])]; rfl
      | true => rw [List.filter_cons_of_pos (by simp [matched, enabled])]; rfl

/-- What the rules of least priority give. -/
def answer (alert : CanonicalBaseAlert) (provider : ProviderDecision) : List RuleFields →
      Except RuleError NormalizationResult
  | [] => .ok (unresolved .UNCLASSIFIED "normalization_rule_not_found")
  | [rule] => rule.normalize alert provider
  | _ :: _ :: _ => .ok (unresolved .UNCLASSIFIED "normalization_rule_conflict")

/-- The answer does not depend on the order of the best rules. -/
theorem answer_perm {best best' : List RuleFields} (h : best.Perm best') :
    answer alert provider best = answer alert provider best' := by
  match best, best' with
  | [], best' => rw [h.nil_eq]
  | [rule], best' => rw [List.perm_singleton.1 h.symm]
  | _ :: _ :: _, [] => cases h.symm.nil_eq
  | _ :: _ :: _, [rule] => cases List.perm_singleton.1 h
  | _ :: _ :: _, _ :: _ :: _ => rfl

/-- Where no rule raises, the answer is that of the best matching rules. -/
theorem normalizeRules_eq {rules : List RuleFields}
    (total : ∀ rule ∈ rules, ∃ found, rule.matches alert = .ok found) (accepted : provider.errors = []) :
    normalizeRules rules alert provider =
      answer alert provider (least (·.priority) (rules.filter (·.matched alert))) := by
  unfold normalizeRules
  rw [if_neg (not_not.2 accepted), matchingRules_eq total]
  dsimp only
  cases keys : (rules.filter (·.matched alert)).map (·.priority) with
  | nil =>
    rw [List.map_eq_nil_iff.1 keys]
    rfl
  | cons p ps =>
    dsimp only
    rw [filter_foldl_min keys]
    cases best : least (·.priority) (rules.filter (·.matched alert)) with
    | nil =>
      rw [least_eq_nil.1 best] at keys
      cases keys
    | cons rule rest => cases rest <;> rfl

/-- Validated rules do not raise. -/
theorem total_of_validated {rules : List RuleFields} (validated : ∀ rule ∈ rules, rule.Validated) :
    ∀ rule ∈ rules, ∃ found, rule.matches alert = .ok found := by
  intro rule mem
  obtain ⟨typed, h⟩ := validated rule mem
  exact ⟨_, matches_of_validate h⟩

/-- Other rules in any order, none of which matches with the least priority. -/
theorem normalizeRules_perm {rules added all : List RuleFields} (validated : ∀ rule ∈ rules, rule.Validated)
    (later : ∀ rule ∈ added, rule.Validated ∧
      (¬ rule.Matching alert ∨ ∃ best ∈ rules, best.Matching alert ∧ best.priority < rule.priority))
    (order : all.Perm (rules ++ added)) :
    normalizeRules all alert provider = normalizeRules rules alert provider := by
  by_cases accepted : provider.errors = []
  · have every : ∀ rule ∈ all, rule.Validated := by
      intro rule mem
      rcases List.mem_append.1 (order.mem_iff.1 mem) with first | last
      · exact validated rule first
      · exact (later rule last).1
    have greater : ∀ rule ∈ added.filter (·.matched alert), ∃ best ∈ rules.filter (·.matched alert),
        best.priority < rule.priority := by
      intro rule mem
      obtain ⟨mem, matched⟩ := List.mem_filter.1 mem
      rcases (later rule mem).2 with unmatched | ⟨best, there, matching, less⟩
      · exact absurd (matched_iff.1 matched) unmatched
      · exact ⟨best, List.mem_filter.2 ⟨there, matched_iff.2 matching⟩, less⟩
    rw [normalizeRules_eq (total_of_validated every) accepted,
      normalizeRules_eq (total_of_validated validated) accepted]
    apply answer_perm
    have sorted : (least (·.priority) (all.filter (·.matched alert))).Perm
        (least (·.priority) ((rules ++ added).filter (·.matched alert))) := least_perm (order.filter _)
    rw [List.filter_append, least_append greater] at sorted
    exact sorted
  · unfold normalizeRules
    rw [if_pos accepted, if_pos accepted]

/-! ## The resource of a rule -/

/-- The path leads to a text that is not blank. -/
def CanonicalBaseAlert.NonBlank (alert : CanonicalBaseAlert) (path s : String) : Prop :=
  alert.resolve path = .ok (some (.str s)) ∧ Text.strip s ≠ ""

/-- The text at a declared path; nothing where none is declared. -/
def CanonicalBaseAlert.Extracts (alert : CanonicalBaseAlert) : Option String → Option String → Prop
  | none, text => text = none
  | some path, text => ∃ s, text = some s ∧ alert.NonBlank path s

/-- What is extracted is what stands at the path. -/
theorem extractText_iff {path text : Option String} : extractText alert path = .ok (some text) ↔
      alert.Extracts path text := by
  cases path with
  | none =>
    constructor
    · intro h
      cases h
      rfl
    · rintro rfl
      rfl
  | some path =>
    unfold extractText CanonicalBaseAlert.Extracts CanonicalBaseAlert.NonBlank
    dsimp only
    constructor
    · intro h
      obtain ⟨found, hfound, h⟩ := bind_eq_ok.1 h
      split at h
      · next s =>
        split at h
        · cases h
        · next nonblank =>
          cases h
          exact ⟨s, rfl, hfound, nonblank⟩
      · cases h
    · rintro ⟨s, rfl, hfound, nonblank⟩
      rw [hfound]
      change Except.ok (if Text.strip s = "" then none else some (some s)) = _
      rw [if_neg nonblank]

/-- A resource is what its paths extract, under the constants of its rule. -/
theorem resource_iff {output : OutputFields} {resource : NormalizedResource} :
    output.resource alert = .ok (some resource) ↔
    alert.Extracts output.scopePath resource.scopeId ∧
      alert.Extracts output.resourceIdPath resource.resourceId ∧
      alert.Extracts output.resourceNamePath resource.resourceName ∧ resource.provider = output.provider ∧
        resource.resourceType = output.resourceType ∧ resource.displayUnit = output.displayUnit := by
  unfold OutputFields.resource
  simp only [← extractText_iff]
  constructor
  · intro h
    obtain ⟨scopeId, hscope, h⟩ := bind_eq_ok.1 h
    cases scopeId with
    | none => cases h
    | some scopeId =>
      obtain ⟨resourceId, hid, h⟩ := bind_eq_ok.1 h
      cases resourceId with
      | none => cases h
      | some resourceId =>
        obtain ⟨resourceName, hname, h⟩ := bind_eq_ok.1 h
        cases resourceName with
        | none => cases h
        | some resourceName =>
          cases h
          exact ⟨hscope, hid, hname, rfl, rfl, rfl⟩
  · rintro ⟨hscope, hid, hname, provider, resourceType, displayUnit⟩
    rw [hscope, hid, hname, ← provider, ← resourceType, ← displayUnit]
    rfl

/-- The paths an output declares. -/
def OutputFields.paths (output : OutputFields) : List String :=
  [output.scopePath, output.resourceIdPath, output.resourceNamePath].reduceOption

/-- Something is extracted exactly if a text that is not blank stands at the path. -/
theorem exists_extracts {path : Option String} : (∃ text, alert.Extracts path text) ↔ ∀ p, path = some p →
      ∃ s, alert.NonBlank p s := by
  cases path with
  | none => exact ⟨fun _ p h => (by cases h), fun _ => ⟨none, rfl⟩⟩
  | some path =>
    constructor
    · rintro ⟨_, s, -, found⟩ p h
      cases h
      exact ⟨s, found⟩
    · intro h
      obtain ⟨s, found⟩ := h path rfl
      exact ⟨some s, s, rfl, found⟩

/-- There is a resource exactly if a text that is not blank stands at each path. -/
theorem exists_resource {output : OutputFields} : (∃ resource, output.resource alert = .ok (some resource)) ↔
    ∀ path ∈ output.paths, ∃ s, alert.NonBlank path s := by
  have mem : ∀ path, path ∈ output.paths ↔
      output.scopePath = some path ∨ output.resourceIdPath = some path ∨
        output.resourceNamePath = some path := by
    intro path
    unfold OutputFields.paths
    rw [List.reduceOption_mem_iff]
    simp [eq_comm]
  constructor
  · rintro ⟨resource, h⟩ path declared
    obtain ⟨hscope, hid, hname, -⟩ := resource_iff.1 h
    rcases (mem path).1 declared with declared | declared | declared
    · exact exists_extracts.1 ⟨_, hscope⟩ path declared
    · exact exists_extracts.1 ⟨_, hid⟩ path declared
    · exact exists_extracts.1 ⟨_, hname⟩ path declared
  · intro all
    obtain ⟨scopeId, hscope⟩ := exists_extracts.2 fun path declared => all path ((mem path).2 (.inl declared))
    obtain ⟨resourceId, hid⟩ :=
      exists_extracts.2 fun path declared => all path ((mem path).2 (.inr (.inl declared)))
    obtain ⟨resourceName, hname⟩ :=
      exists_extracts.2 fun path declared => all path ((mem path).2 (.inr (.inr declared)))
    exact ⟨⟨output.provider, output.resourceType, scopeId, resourceId, resourceName, output.displayUnit⟩,
      resource_iff.2 ⟨hscope, hid, hname, rfl, rfl, rfl⟩⟩

/-! ## The engine of validated rules -/

/-- On the records of validated rules the engine does what it does on the rules. -/
theorem normalizeRules_refines {rules : List RuleFields} {typed : List NormalizationRule}
    (h : List.Forall₂ (fun rule typed => rule.validate = .ok typed) rules typed) :
    normalizeRules rules alert provider = .ok (SafeRuleEngine.normalize ⟨typed⟩ alert provider) := by
  by_cases accepted : provider.errors = []
  · have total : ∀ rule ∈ rules, ∃ found, rule.matches alert = .ok found := by
      intro rule mem
      obtain ⟨t, -, ht⟩ := exists_of_forall₂ h.flip mem
      exact ⟨_, matches_of_validate ht⟩
    have found : List.Forall₂ (fun rule typed => rule.validate = .ok typed) (rules.filter (·.matched alert))
        ((typed.filter (·.enabled)).filter fun rule => rule.conditions.all (·.holds alert)) := by
      rw [List.filter_filter]
      refine List.rel_filter (fun rule t ht => ?_) h
      change rule.matched alert = true ↔ (t.conditions.all (·.holds alert) && t.enabled) = true
      unfold RuleFields.matched
      rw [matches_of_validate ht]
      simp [(rule_of_validate ht).2.2.2.2.2, and_comm]
    have keys : ∀ {rules : List RuleFields} {typed : List NormalizationRule},
        List.Forall₂ (fun rule typed => rule.validate = .ok typed) rules typed →
          typed.map (·.priority) = rules.map (·.priority) := by
      intro rules typed related
      induction related with
      | nil => rfl
      | cons head _ ih => rw [List.map_cons, List.map_cons, ih, (rule_of_validate head).2.2.2.2.1]
    unfold normalizeRules SafeRuleEngine.normalize
    rw [if_neg (not_not.2 accepted), if_neg (not_not.2 accepted), matchingRules_eq total]
    dsimp only
    rw [keys found]
    cases (rules.filter (·.matched alert)).map (·.priority) with
    | nil => rfl
    | cons p ps =>
      dsimp only
      have best := List.rel_filter (p := fun rule : RuleFields => decide (rule.priority = ps.foldl min p))
        (q := fun rule : NormalizationRule => decide (rule.priority = ps.foldl min p)) (fun rule t ht => by
          simp [(rule_of_validate ht).2.2.2.2.1]) found
      generalize (rules.filter (·.matched alert)).filter
        (fun rule => decide (rule.priority = ps.foldl min p)) = left at best ⊢
      generalize ((typed.filter (·.enabled)).filter fun rule => rule.conditions.all (·.holds alert)).filter
        (fun rule => decide (rule.priority = ps.foldl min p)) = right at best ⊢
      cases best with
      | nil => rfl
      | @cons rule t _ _ head tail =>
        cases tail with
        | cons _ _ => rfl
        | nil =>
          obtain ⟨-, output, id, version, -, -⟩ := rule_of_validate head
          have same : t.output.provider = rule.output.provider := (output_of_validate output).2.2.2.1
          dsimp only
          unfold RuleFields.normalize
          rw [same, resource_of_validate output, id, version]
          split
          · rfl
          · cases t.output.resource alert <;> rfl
  · unfold normalizeRules SafeRuleEngine.normalize
    rw [if_pos accepted, if_pos accepted]

/-! ## What is normalized -/

/-- Exactly one matching rule has the least priority. -/
def BestAlone (alert : CanonicalBaseAlert) (rules : List RuleFields) (rule : RuleFields) : Prop :=
  ∃ before after, rules = before ++ rule :: after ∧ rule.Matching alert ∧
    ∀ other ∈ before ++ after, other.Matching alert → rule.priority < other.priority

/-- One rule is best exactly if it stands alone at the least priority. -/
theorem least_eq_singleton {rules : List RuleFields} {rule : RuleFields} :
    least (·.priority) (rules.filter (·.matched alert)) = [rule] ↔ BestAlone alert rules rule := by
  rw [least_filter_eq_singleton]
  simp only [matched_iff]
  rfl

/-- A rule that is left and gives a resource. -/
def RuleFields.Gives (rule : RuleFields) (alert : CanonicalBaseAlert) (provider : ProviderDecision)
    (resource : NormalizedResource) :
    Prop :=
  rule.output.provider = provider.provider ∧ rule.output.resource alert = .ok (some resource)

/-- A rule that gives a resource normalizes the alert. -/
theorem normalize_eq {rule : RuleFields} {resource : NormalizedResource}
    (gives : rule.Gives alert provider resource) :
    rule.normalize alert provider =
      .ok ⟨.NORMALIZED, some resource, some (rule.id, rule.version.toNat), []⟩ := by
  unfold RuleFields.normalize
  rw [if_neg (not_not.2 gives.1), gives.2]

/-- An alert is normalized by one best rule, which gives its resource. -/
theorem answer_normalized {best : List RuleFields} {result : NormalizationResult}
    (h : answer alert provider best = .ok result) (normalized : result.status = .NORMALIZED) :
    ∃ rule resource, best = [rule] ∧ rule.Gives alert provider resource := by
  match best with
  | [] =>
    cases h
    cases normalized
  | _ :: _ :: _ =>
    cases h
    cases normalized
  | [rule] =>
    change rule.normalize alert provider = .ok result at h
    unfold RuleFields.normalize at h
    split at h
    · cases h
      cases normalized
    · next same =>
      split at h
      · cases h
      · cases h
        cases normalized
      · next resource found => exact ⟨rule, resource, rfl, not_not.1 same, found⟩

/-- Validated rules answer. -/
theorem answer_total {best : List RuleFields} (validated : ∀ rule ∈ best, rule.Validated) :
    ∃ result, answer alert provider best = .ok result := by
  match best with
  | [] => exact ⟨_, rfl⟩
  | _ :: _ :: _ => exact ⟨_, rfl⟩
  | [rule] =>
    obtain ⟨typed, h⟩ := validated rule List.mem_cons_self
    change ∃ result, rule.normalize alert provider = .ok result
    unfold RuleFields.normalize
    rw [resource_of_validate (rule_of_validate h).2.1]
    split
    · exact ⟨_, rfl⟩
    · cases typed.output.resource alert <;> exact ⟨_, rfl⟩

/-- Validated rules answer, whatever the alert is. -/
theorem normalizeRules_total {rules : List RuleFields} (validated : ∀ rule ∈ rules, rule.Validated) :
    ∃ result, normalizeRules rules alert provider = .ok result := by
  by_cases accepted : provider.errors = []
  · rw [normalizeRules_eq (total_of_validated validated) accepted]
    apply answer_total
    intro rule mem
    exact validated rule (List.mem_filter.1 (mem_least.1 mem).1).1
  · unfold normalizeRules
    rw [if_pos accepted]
    exact ⟨_, rfl⟩

/-- An alert is normalized exactly if its provider is certain and one rule is best alone and gives a
resource. -/
theorem normalized_iff {rules : List RuleFields} {result : NormalizationResult}
    (validated : ∀ rule ∈ rules, rule.Validated) (h : normalizeRules rules alert provider = .ok result) :
    result.status = .NORMALIZED ↔
      provider.errors = [] ∧ ∃ rule resource, BestAlone alert rules rule ∧
        rule.Gives alert provider resource := by
  constructor
  · intro normalized
    by_cases accepted : provider.errors = []
    · rw [normalizeRules_eq (total_of_validated validated) accepted] at h
      obtain ⟨rule, resource, best, gives⟩ := answer_normalized h normalized
      exact ⟨accepted, rule, resource, least_eq_singleton.1 best, gives⟩
    · unfold normalizeRules at h
      rw [if_pos accepted] at h
      cases h
      cases normalized
  · rintro ⟨accepted, rule, resource, best, gives⟩
    rw [normalizeRules_eq (total_of_validated validated) accepted, least_eq_singleton.2 best] at h
    cases (normalize_eq gives).symm.trans h
    rfl

/-- Rule evaluation neither raises nor depends on the order of the rules or on rules that cannot win.
An alert is normalized exactly when one rule wins for the decided provider and finds all its texts;
these are the resource. -/
theorem normalize_honest (rules : List RuleFields) (validated : ∀ rule ∈ rules, rule.Validated)
    (alert : CanonicalBaseAlert) (provider : ProviderDecision) :
    ∃ result, normalizeRules rules alert provider = .ok result ∧
      (∀ added all : List RuleFields, all.Perm (rules ++ added) →
        (∀ rule ∈ added, rule.Validated ∧
          (¬ rule.Matching alert ∨ ∃ best ∈ rules, best.Matching alert ∧ best.priority < rule.priority)) →
        normalizeRules all alert provider = .ok result) ∧
      (result.status = .NORMALIZED ↔ provider.errors = [] ∧ ∃ rule, BestAlone alert rules rule ∧
        rule.output.provider = provider.provider ∧ ∀ path ∈ rule.output.paths, ∃ s, alert.NonBlank path s) ∧
      (result.status = .NORMALIZED → ∀ rule, BestAlone alert rules rule → ∃ scopeId resourceId resourceName,
        alert.Extracts rule.output.scopePath scopeId ∧ alert.Extracts rule.output.resourceIdPath resourceId ∧
          alert.Extracts rule.output.resourceNamePath resourceName ∧
            result.rule = some (rule.id, rule.version.toNat) ∧
            result.resource = some ⟨rule.output.provider, rule.output.resourceType, scopeId, resourceId,
              resourceName, rule.output.displayUnit⟩) := by
  obtain ⟨result, h⟩ : ∃ result, normalizeRules rules alert provider = .ok result :=
  normalizeRules_total validated
  have normalized := normalized_iff validated h
  refine ⟨result, h, fun added all order later => (normalizeRules_perm validated later order).trans h,
    normalized.trans ?_, ?_⟩
  · refine and_congr_right fun _ => exists_congr fun rule => ?_
    rw [exists_and_left]
    refine and_congr_right fun _ => ?_
    unfold RuleFields.Gives
    rw [exists_and_left]
    exact and_congr_right fun _ => exists_resource
  · intro done rule best
    obtain ⟨accepted, winner, resource, alone, gives⟩ := normalized.1 done
    have same : [winner] = [rule] := (least_eq_singleton.2 alone).symm.trans (least_eq_singleton.2 best)
    cases same
    rw [normalizeRules_eq (total_of_validated validated) accepted, least_eq_singleton.2 best] at h
    cases (normalize_eq gives).symm.trans h
    obtain ⟨hscope, hid, hname, hprovider, htype, hunit⟩ := resource_iff.1 gives.2
    refine ⟨resource.scopeId, resource.resourceId, resource.resourceName, hscope, hid, hname, rfl, ?_⟩
    rw [← hprovider, ← htype, ← hunit]

/-- The CPU of a database, by its label. -/
def databaseRule : RuleFields where
  id := ⟨1, by decide⟩
  sourceId := none
  name := "database-cpu"
  version := 1
  priority := 10
  conditions := [⟨"labels.DBInstanceIdentifier", .exists_, none⟩, ⟨"labels.folder", .prefix_, some "COM-"⟩,
    ⟨"labels.Series", .format, some "aws_account_id"⟩]
  output :=
    ⟨.AWS, "rds_instance", some "labels.Series", some "labels.DBInstanceIdentifier", none, some "percent"⟩
  enabled := true

/-- Anything with an alert name, after all others. -/
def namedRule : RuleFields where
  id := ⟨2, by decide⟩
  sourceId := none
  name := "named"
  version := 3
  priority := 100
  conditions := [⟨"labels.alertname", .exists_, none⟩]
  output := ⟨.AWS, "unknown", none, none, none, none⟩
  enabled := true

def databaseAlert : CanonicalBaseAlert where
  labels := [("folder", .str "COM-LX-BOA-01"), ("alertname", .str "High CPU usage"),
    ("DBInstanceIdentifier", .str "production-rds-01"), ("Series", .str "123456789012")]
  annotations := []
  values := []

/-- The rule of the database wins whatever the order. -/
theorem database_rule_wins :
    ∃ result, normalizeRules [namedRule, databaseRule] databaseAlert ⟨.AWS, none, []⟩ = .ok result ∧
    result.status = .NORMALIZED ∧ result.resource =
      some ⟨.AWS, "rds_instance", some "123456789012", some "production-rds-01", none, some "percent"⟩ := by
  have validated : ∀ rule ∈ [databaseRule], rule.Validated := by
    intro rule mem
    rw [List.mem_singleton.1 mem]
    exact ⟨_, rfl⟩
  have matching : databaseRule.Matching databaseAlert := ⟨rfl, rfl⟩
  have alone : BestAlone databaseAlert [databaseRule] databaseRule := ⟨[], [], rfl, matching, by simp⟩
  have scope : databaseAlert.resolve "labels.Series" = .ok (some (.str "123456789012")) := rfl
  have name : databaseAlert.resolve "labels.DBInstanceIdentifier" =
      .ok (some (.str "production-rds-01")) := rfl
  obtain ⟨result, -, order, normalized, texts⟩ :=
    normalize_honest [databaseRule] validated databaseAlert ⟨.AWS, none, []⟩
  have done : result.status = .NORMALIZED := by
    refine normalized.2 ⟨rfl, databaseRule, alone, rfl, fun path declared => ?_⟩
    rcases List.mem_cons.1 (declared : path ∈ ["labels.Series", "labels.DBInstanceIdentifier"]) with rfl |
      declared
    · exact ⟨_, scope, by decide⟩
    · rw [List.mem_singleton.1 declared]
      exact ⟨_, name, by decide⟩
  refine ⟨result, order [namedRule] _ (List.Perm.swap databaseRule namedRule []) fun rule mem => ?_, done, ?_⟩
  · rw [List.mem_singleton.1 mem]
    exact ⟨⟨_, rfl⟩, .inr ⟨databaseRule, List.mem_cons_self, matching, by decide⟩⟩
  · obtain ⟨_, _, _, ⟨s, rfl, hscope, -⟩, ⟨t, rfl, hid, -⟩, rfl, -, found⟩ := texts done databaseRule alone
    cases scope.symm.trans hscope
    cases name.symm.trans hid
    exact found

end SreAgent.Ingestion
