import Mathlib
import SreAgent.Trace.Agreement

/-!
# Rank and score

The worker chooses by the lexicographic order of five keys, and stores a score that adds up three
of them. The chosen trace ranks highest (`ranks_of_representative`), but a trace that ranks below it
can have the higher score: `score_explains_iff` says when none has.
-/

namespace SreAgent.Trace
open Base JsonParse ParentChain

/-! ## The order of the keys -/

/-- The key of a candidate. -/
def rankKey (alertIssue : String) (c : CandidateTrace) : Bool ×ₗ ℚ ×ₗ ℕ ×ₗ WithTop ℚ ×ₗ String :=
  toLex
    (c.hasError,
      toLex (c.latencyAnomalyScore, toLex (issueMatchScore c alertIssue, toLex (c.durationMs, c.traceId))))

section Order

variable {alertIssue : String} {a b : CandidateTrace}

/-- The order of pairs, as Python compares tuples. -/
theorem lex_le_iff {α β : Type*} [LinearOrder α] [LE β] (x x' : α) (y y' : β) :
    toLex (x, y) ≤ toLex (x', y') ↔ if x ≠ x' then x < x' else y ≤ y' := by
  rw [Prod.Lex.toLex_le_toLex]
  split
  · next ne => exact ⟨fun h => h.elim id fun h => absurd h.1 ne, .inl⟩
  · next same =>
    have same := not_not.1 same
    subst same
    exact ⟨fun h => h.elim (fun h => absurd h (lt_irrefl _)) And.right, fun h => .inr ⟨rfl, h⟩⟩

/-- The rank is the order of the keys. -/
theorem ranksAtMost_iff : RanksAtMost alertIssue a b ↔ rankKey alertIssue a ≤ rankKey alertIssue b := by
  have error : (b.hasError = true ∧ a.hasError ≠ b.hasError) ↔ a.hasError < b.hasError := by
    cases a.hasError <;> cases b.hasError <;> decide
  simp only [rankKey, lex_le_iff, RanksAtMost]
  split
  · next ne => rw [← error, and_iff_left ne]
  · rfl

instance (alertIssue : String) : Std.Total fun a b : CandidateTrace => RanksAtMost alertIssue b a where
  total a b := by
    simp only [ranksAtMost_iff]
    exact le_total _ _

instance (alertIssue : String) : IsTrans CandidateTrace fun a b => RanksAtMost alertIssue b a where
  trans a b d := by
    simp only [ranksAtMost_iff]
    exact fun hba hdb => hdb.trans hba

/-- The first of the ranked candidates is one of them, and none ranks above it. -/
theorem ranks_of_head {candidates : List CandidateTrace} (h : (ranked alertIssue candidates).head? = some a) :
    a ∈ candidates ∧ ∀ b ∈ candidates, RanksAtMost alertIssue b a := by
  have sorted := List.pairwise_insertionSort (fun a b => RanksAtMost alertIssue b a) candidates
  change (ranked alertIssue candidates).Pairwise _ at sorted
  have members : ∀ b, b ∈ ranked alertIssue candidates ↔ b ∈ candidates := fun b => List.mem_insertionSort _
  cases hranked : ranked alertIssue candidates with
  | nil => rw [hranked] at h; cases h
  | cons first rest =>
    rw [hranked] at h sorted members
    cases h
    refine ⟨(members a).1 List.mem_cons_self, fun b hb => ?_⟩
    rcases List.mem_cons.1 ((members b).2 hb) with rfl | hb
    · rw [ranksAtMost_iff]
    · exact (List.pairwise_cons.1 sorted).1 b hb

end Order

/-- The candidates of a payload that pass validation. -/
def ValidCandidates (rt : Runtime) (payload : Json) (candidates : List CandidateTrace) : Prop :=
  parseCandidates rt (candidateObjects payload) = .ok candidates

section Representative

variable {rt : Runtime} {payload : Json} {alertIssue : String} {maxSpans : Int} {d : JsonObject}
  {a b : CandidateTrace}

/-- The chosen candidate ranks highest. -/
theorem ranks_of_representative (h : representative rt payload alertIssue = .ok (some a)) :
    ∃ candidates, ValidCandidates rt payload candidates ∧ a ∈ candidates ∧
      ∀ b ∈ candidates, RanksAtMost alertIssue b a := by
  unfold representative at h
  cases hcandidates : parseCandidates rt (candidateObjects payload) with
  | error e => rw [hcandidates] at h; cases h
  | ok candidates =>
    rw [hcandidates] at h
    exact ⟨candidates, hcandidates, ranks_of_head (Except.ok.inj h)⟩

/-! ## The score -/

/-- Rounding keeps the order. -/
def Runtime.Monotone (rt : Runtime) : Prop := ∀ p q, 0 ≤ p → p ≤ q → rt.magnitude p ≤ rt.magnitude q

/-- Sums grow with their second part. -/
theorem Runtime.Monotone.sum_le (mono : rt.Monotone) {x y y' : WithTop ℚ} (hx : 0 ≤ x) (hy : 0 ≤ y)
    (le : y ≤ y') :
    rt.sum x y ≤ rt.sum x y' := by
  induction x using WithTop.recTopCoe with
  | top => exact le_refl _
  | coe p =>
    induction y' using WithTop.recTopCoe with
    | top => exact le_top
    | coe q' =>
      obtain ⟨q, rfl⟩ := WithTop.ne_top_iff_exists.1 (ne_top_of_le_ne_top WithTop.coe_ne_top le)
      refine mono _ _ (add_nonneg (WithTop.coe_nonneg.1 hx) (WithTop.coe_nonneg.1 hy)) ?_
      exact add_le_add_right (WithTop.coe_le_coe.1 le) p

theorem Runtime.Monotone.sum_le' (mono : rt.Monotone) {x x' y : WithTop ℚ} (hx : 0 ≤ x) (hy : 0 ≤ y)
    (le : x ≤ x') :
    rt.sum x y ≤ rt.sum x' y := by
  have comm : ∀ x y : WithTop ℚ, rt.sum x y = rt.sum y x := by
    intro x y
    induction x using WithTop.recTopCoe with
    | top => cases y <;> rfl
    | coe p =>
      induction y using WithTop.recTopCoe with
      | top => rfl
      | coe q =>
        change rt.magnitude (p + q) = rt.magnitude (q + p)
        rw [add_comm]
  rw [comm x, comm x']
  exact mono.sum_le hy hx le

/-- Quotients grow with their dividend. -/
theorem Runtime.Monotone.quotient_le (mono : rt.Monotone) {x x' : WithTop ℚ} (hx : 0 ≤ x) {n : ℚ} (hn : 0 < n)
    (le : x ≤ x') : rt.quotient x n ≤ rt.quotient x' n := by
  induction x' using WithTop.recTopCoe with
  | top => exact le_top
  | coe q =>
    obtain ⟨p, rfl⟩ := WithTop.ne_top_iff_exists.1 (ne_top_of_le_ne_top WithTop.coe_ne_top le)
    exact mono _ _ (div_nonneg (WithTop.coe_nonneg.1 hx) hn.le)
      (div_le_div_of_nonneg_right (WithTop.coe_le_coe.1 le) hn.le)

/-- The sum of an error weight, an anomaly score and a scaled duration, each rounded. -/
def Runtime.weigh (rt : Runtime) (error : WithTop ℚ) (c : CandidateTrace) : WithTop ℚ :=
  rt.sum (rt.sum error c.latencyAnomalyScore) (rt.quotient c.durationMs 1000000000)

/-- The score of the stored trace is at least that of every valid candidate. -/
def ScoreExplains (rt : Runtime) (payload : Json) (d : JsonObject) : Prop :=
  ∃ score, JsonObject.get? d "representativeScore" = some (magnitudeJson score) ∧
    ∀ candidates, ValidCandidates rt payload candidates → ∀ b ∈ candidates, b.representativeScore rt ≤ score

/-- What outranks `b` outweighs it too, for the keys that do not decide alone. -/
structure Outweighed (rt : Runtime) (alertIssue : String) (a b : CandidateTrace) : Prop where
  error : a.hasError = true → b.hasError = false → rt.weigh 0 b ≤ rt.weigh 1 a
  anomaly : a.hasError = b.hasError → b.latencyAnomalyScore < a.latencyAnomalyScore →
    a.durationMs < b.durationMs →
    ∀ error : WithTop ℚ, error = (if a.hasError then 1 else 0) → rt.weigh error b ≤ rt.weigh error a
  issue : a.hasError = b.hasError → a.latencyAnomalyScore = b.latencyAnomalyScore →
    issueMatchScore b alertIssue < issueMatchScore a alertIssue → a.durationMs < b.durationMs →
    ∀ error : WithTop ℚ, error = (if a.hasError then 1 else 0) → rt.weigh error b ≤ rt.weigh error a

/-- A higher score of equal error, with no more anomaly and no longer duration, is impossible. -/
theorem weigh_le (mono : rt.Monotone) (ha : a.Checked rt) (hb : b.Checked rt) {error : WithTop ℚ}
    (nonneg : 0 ≤ error) (anomaly : b.latencyAnomalyScore ≤ a.latencyAnomalyScore)
    (duration : b.durationMs ≤ a.durationMs) :
    rt.weigh error b ≤ rt.weigh error a := by
  have scores : (0 : WithTop ℚ) ≤ b.latencyAnomalyScore := WithTop.coe_nonneg.2 hb.score
  have tail : 0 ≤ rt.quotient b.durationMs 1000000000 := quotient_nonneg hb.duration (by decide)
  calc rt.weigh error b
      ≤ rt.sum (rt.sum error a.latencyAnomalyScore) (rt.quotient b.durationMs 1000000000) :=
        mono.sum_le' (sum_nonneg nonneg scores) tail
          (mono.sum_le nonneg scores (WithTop.coe_le_coe.2 anomaly))
    _ ≤ rt.weigh error a :=
        mono.sum_le (sum_nonneg nonneg (WithTop.coe_nonneg.2 ha.score)) tail
          (mono.quotient_le hb.duration (by decide) duration)

/-- A candidate that ranks lower scores no higher, exactly if it is outweighed. -/
theorem score_le_iff (mono : rt.Monotone) (ha : a.Checked rt) (hb : b.Checked rt)
    (ranks : RanksAtMost alertIssue b a) :
    b.representativeScore rt ≤ a.representativeScore rt ↔ Outweighed rt alertIssue a b := by
  have score : ∀ c : CandidateTrace, c.representativeScore rt = rt.weigh (if c.hasError then 1 else 0) c :=
    fun _ => rfl
  have weight : ∀ c : CandidateTrace, (0 : WithTop ℚ) ≤ if c.hasError then 1 else 0 := fun c => by
    split <;> decide
  constructor
  · intro le
    refine ⟨fun hea heb => ?_, fun same _ _ error herror => ?_, fun same _ _ _ error herror => ?_⟩
    · rwa [score, score, hea, heb] at le
    · rwa [score, score, ← same, ← herror] at le
    · rwa [score, score, ← same, ← herror] at le
  · intro outweighed
    rw [score, score]
    unfold RanksAtMost at ranks
    split at ranks
    · next ne =>
      have heb : b.hasError = false := by
        rw [ranks] at ne
        simpa using ne
      rw [ranks, heb]
      exact outweighed.error ranks heb
    · next same =>
      have same := not_not.1 same
      rw [same]
      split at ranks
      · next =>
        by_cases longer : a.durationMs < b.durationMs
        · exact outweighed.anomaly same.symm ranks longer _ rfl
        · exact weigh_le mono ha hb (weight a) ranks.le (not_lt.1 longer)
      · next sameScore =>
        have sameScore := not_not.1 sameScore
        by_cases longer : a.durationMs < b.durationMs
        · split at ranks
          · exact outweighed.issue same.symm sameScore.symm ranks longer _ rfl
          · split at ranks
            · exact absurd ranks longer.not_gt
            · next sameDuration => exact absurd (not_not.1 sameDuration) longer.ne'
        · exact weigh_le mono ha hb (weight a) sameScore.le (not_lt.1 longer)

/-- The score that is stored is that of the chosen candidate. -/
theorem scoreExplains_iff (h : normalizeTraceEvidence rt payload alertIssue maxSpans = .ok (some d)) :
    ScoreExplains rt payload d ↔ ∀ candidates a, ValidCandidates rt payload candidates →
      representative rt payload alertIssue = .ok (some a) →
        ∀ b ∈ candidates, b.representativeScore rt ≤ a.representativeScore rt := by
  obtain ⟨a, t, chosen, -, -, found, written⟩ := normalize_eq_some h
  obtain ⟨root, instant, -, -, rfl⟩ := toStorageDict_eq_ok written
  obtain ⟨-, -, -, ht⟩ := CandidateTrace.truncate_eq_ok found
  have stored : JsonObject.get? (t.dictionary root (IsoTime.text instant)) "representativeScore" =
      some (magnitudeJson (a.representativeScore rt)) := by
    rw [ht]
    rfl
  have injective : ∀ x y : WithTop ℚ, magnitudeJson x = magnitudeJson y → x = y := by
    intro x y same
    cases x <;> cases y <;> cases same <;> rfl
  constructor
  · rintro ⟨score, hscore, highest⟩ candidates a' valid chosen' b hb
    cases chosen.symm.trans chosen'
    rw [stored] at hscore
    rw [← injective _ _ (Option.some.inj hscore)] at highest
    exact highest candidates valid b hb
  · intro highest
    exact ⟨_, stored, fun candidates valid b hb => highest candidates a valid chosen b hb⟩

/-- The stored score is the highest, exactly if the chosen candidate outweighs every valid one. -/
theorem score_explains_iff (mono : rt.Monotone)
    (h : normalizeTraceEvidence rt payload alertIssue maxSpans = .ok (some d)) :
    ScoreExplains rt payload d ↔ ∀ candidates a, ValidCandidates rt payload candidates →
      representative rt payload alertIssue = .ok (some a) →
        ∀ b ∈ candidates, Outweighed rt alertIssue a b := by
  rw [scoreExplains_iff h]
  refine forall₅_congr fun candidates a valid chosen b => forall_congr' fun hb => ?_
  obtain ⟨candidates', valid', ha, ranks⟩ := ranks_of_representative chosen
  cases valid.symm.trans valid'
  have checked := parseCandidates_checked valid
  exact score_le_iff mono (checked a ha) (checked b hb) (ranks b hb)

/-! ## A higher score that is not chosen -/

theorem monotone_isoRuntime : isoRuntime.Monotone := fun _ _ _ le => WithTop.coe_le_coe.2 le

/-- A trace of one span, with a status, an anomaly score and a duration. -/
def scoredTrace (id status : String) (anomaly duration : Int) : Json :=
  .obj [("traceId", .str id), ("startedAt", .str "2026-08-23T01:02:03Z"),
    ("latencyAnomalyScore", .int anomaly),
    ("spans", .arr [.obj [("spanId", .str "1"), ("serviceName", .str "api"), ("operationName", .str "GET /a"),
      ("startOffsetMs", .int 0), ("durationMs", .int duration), ("status", .str status),
      ("kind", .str "SERVER"), ("criticalPath", .bool true), ("attributes", .obj [])]])]

/-- A failed trace, and one of high anomaly. -/
def failedAndSlow : Json := .obj [("traces", .arr [scoredTrace "a" "ERROR" 0 7, scoredTrace "b" "OK" 5 7])]

/-- Two failed traces, of which the one of higher anomaly is shorter, and the longest of all, which
did not fail. -/
def failedAndLong : Json :=
  .obj
    [("traces", .arr [scoredTrace "a" "ERROR" 2 7, scoredTrace "b" "OK" 2 900, scoredTrace "c" "ERROR" 1 40])]

instance (rt : Runtime) (alertIssue : String) (a b : CandidateTrace) :
    Decidable (Outweighed rt alertIssue a b) :=
  let error : WithTop ℚ := if a.hasError then 1 else 0
  decidable_of_iff ((a.hasError = true → b.hasError = false → rt.weigh 0 b ≤ rt.weigh 1 a) ∧
      (a.hasError = b.hasError → b.latencyAnomalyScore < a.latencyAnomalyScore → a.durationMs < b.durationMs →
        rt.weigh error b ≤ rt.weigh error a) ∧
      (a.hasError = b.hasError → a.latencyAnomalyScore = b.latencyAnomalyScore →
        issueMatchScore b alertIssue < issueMatchScore a alertIssue → a.durationMs < b.durationMs →
        rt.weigh error b ≤ rt.weigh error a))
    ⟨fun h => ⟨h.1, fun same less longer _ here => here ▸ h.2.1 same less longer,
      fun same equal more longer _ here => here ▸ h.2.2 same equal more longer⟩,
      fun h => ⟨h.error, fun same less longer => h.anomaly same less longer _ rfl,
        fun same equal more longer => h.issue same equal more longer _ rfl⟩⟩

/-- The chosen candidate outweighs every valid one, and `p` holds of it and one of them. -/
def OutweighsAll (payload : Json) (p : CandidateTrace → CandidateTrace → Bool) : Bool :=
  (parseCandidates isoRuntime (candidateObjects payload)).toOption.all fun candidates =>
    (ranked "latency" candidates).head?.all fun a =>
      candidates.all (fun b => decide (Outweighed isoRuntime "latency" a b)) && candidates.any (p a)

/-- The failed trace of high anomaly is chosen, and its score is the highest, although one trace
failed and lasted longer and another one lasted longer still. -/
theorem short_failure_scores_highest : ∃ d, normalizeTraceEvidence isoRuntime failedAndLong "latency" 100 =
      .ok (some d) ∧
    ScoreExplains isoRuntime failedAndLong d ∧
    ∃ candidates a b, ValidCandidates isoRuntime failedAndLong candidates ∧
      representative isoRuntime failedAndLong "latency" = .ok (some a) ∧ b ∈ candidates ∧
      a.hasError = true ∧ b.hasError = false ∧ a.durationMs < b.durationMs := by
  have some_ : (returned (normalizeTraceEvidence isoRuntime failedAndLong "latency" 100)).isSome =
      true := by decide +kernel
  obtain ⟨d, hd⟩ := Option.isSome_iff_exists.1 some_
  have written := returned_eq_some hd
  have outweighs : OutweighsAll failedAndLong (fun a b => a.hasError && !b.hasError &&
      decide (a.durationMs < b.durationMs)) = true := by
    decide +kernel
  obtain ⟨a, -, chosen, -⟩ := normalize_eq_some written
  obtain ⟨candidates, valid, -, -⟩ := ranks_of_representative chosen
  have first : (ranked "latency" candidates).head? = some a := by
    unfold representative at chosen
    rw [valid] at chosen
    exact Except.ok.inj chosen
  unfold OutweighsAll at outweighs
  rw [valid] at outweighs
  simp only [Except.toOption, Option.all_some, first, Bool.and_eq_true, List.all_eq_true, List.any_eq_true,
    decide_eq_true_eq, Bool.not_eq_true'] at outweighs
  obtain ⟨all, b, hb, ⟨failed, sound⟩, longer⟩ := outweighs
  refine ⟨d, written, (score_explains_iff monotone_isoRuntime written).2 ?_, candidates, a, b, valid,
    chosen, hb, failed, sound, longer⟩
  intro candidates' a' valid' chosen' b' hb'
  cases valid.symm.trans valid'
  cases chosen.symm.trans chosen'
  exact all b' hb'

/-- The failed trace is chosen, with a score of 1; the one of high anomaly would have scored 5. -/
theorem slow_trace_scores_higher : ∃ d, normalizeTraceEvidence isoRuntime failedAndSlow "latency" 100 =
      .ok (some d) ∧
    ¬ ScoreExplains isoRuntime failedAndSlow d := by
  have some_ : (returned (normalizeTraceEvidence isoRuntime failedAndSlow "latency" 100)).isSome =
      true := by decide +kernel
  obtain ⟨d, hd⟩ := Option.isSome_iff_exists.1 some_
  have written := returned_eq_some hd
  refine ⟨d, written, fun explains => ?_⟩
  have heavier : (parseCandidates isoRuntime (candidateObjects failedAndSlow)).toOption.all (fun cs =>
      (ranked "latency" cs).head?.all fun a => cs.any fun b =>
        decide (a.representativeScore isoRuntime < b.representativeScore isoRuntime)) = true := by
          decide +kernel
  obtain ⟨a, -, chosen, -⟩ := normalize_eq_some written
  obtain ⟨candidates, valid, -, -⟩ := ranks_of_representative chosen
  have first : (ranked "latency" candidates).head? = some a := by
    unfold representative at chosen
    rw [valid] at chosen
    exact Except.ok.inj chosen
  rw [valid] at heavier
  simp only [Except.toOption, Option.all_some, first] at heavier
  obtain ⟨b, hb, heavier⟩ := List.any_eq_true.1 heavier
  exact absurd ((scoreExplains_iff written).1 explains candidates a valid chosen b hb)
    (not_le.2 (of_decide_eq_true heavier))

end Representative

end SreAgent.Trace
