import Mathlib

/-!
# The items of least key

`least key l` keeps the items of a list whose key is least in it. It does not depend on the order of the
list, nor on items of greater key.
-/

namespace SreAgent.Base

variable {α ι : Type*} [LinearOrder ι] {key : α → ι} {l l' : List α} {a : α}

/-- The items of least key. -/
def least (key : α → ι) (l : List α) : List α := l.filter fun a => ∀ b ∈ l, key a ≤ key b

/-- The least elements are those whose key is at most every other. -/
theorem mem_least : a ∈ least key l ↔ a ∈ l ∧ ∀ b ∈ l, key a ≤ key b := by
  unfold least
  rw [List.mem_filter, decide_eq_true_iff]

/-- The least elements do not depend on the order. -/
theorem least_perm (h : l.Perm l') : (least key l).Perm (least key l') := by
  have same : ∀ a, (∀ b ∈ l, key a ≤ key b) ↔ ∀ b ∈ l', key a ≤ key b := fun a =>
    ⟨fun all b mem => all b (h.mem_iff.2 mem), fun all b mem => all b (h.mem_iff.1 mem)⟩
  unfold least
  simp only [same]
  exact h.filter _

/-- Items of greater key than one that is there change nothing. -/
theorem least_append (h : ∀ b ∈ l', ∃ a ∈ l, key a < key b) : least key (l ++ l') = least key l := by
  have dropped : (l'.filter fun a => ∀ b ∈ l ++ l', key a ≤ key b) = [] := by
    refine List.filter_eq_nil_iff.2 fun b mem all => ?_
    obtain ⟨a, there, less⟩ := h b mem
    exact absurd (of_decide_eq_true all a (List.mem_append_left l' there)) (not_le.2 less)
  unfold least
  rw [List.filter_append, dropped, List.append_nil]
  refine List.filter_congr fun a _ =>
    decide_eq_decide.2 ⟨fun all b mem => all b (List.mem_append_left l' mem), fun all b mem => ?_⟩
  rcases List.mem_append.1 mem with here | added
  · exact all b here
  · obtain ⟨c, there, less⟩ := h b added
    exact (all c there).trans less.le

/-- A nonempty list has a least element. -/
theorem least_eq_nil : least key l = [] ↔ l = [] := by
  constructor
  · intro none_
    by_contra some_
    obtain ⟨a, mem, min⟩ : ∃ a ∈ l, ∀ b ∈ l, key a ≤ key b := by
      clear none_
      induction l with
      | nil => exact absurd rfl some_
      | cons a l ih =>
        by_cases alone : l = []
        · subst alone
          exact ⟨a, List.mem_cons_self, fun b mem => by rw [List.mem_singleton.1 mem]⟩
        · obtain ⟨c, mem, min⟩ := ih alone
          rcases le_total (key a) (key c) with le | le
          · exact ⟨a, List.mem_cons_self, List.forall_mem_cons.2 ⟨le_rfl, fun b hb => le.trans (min b hb)⟩⟩
          · exact ⟨c, List.mem_cons_of_mem a mem, List.forall_mem_cons.2 ⟨le, min⟩⟩
    have kept := mem_least.2 ⟨mem, min⟩
    rw [none_] at kept
    cases kept
  · rintro rfl
    rfl

/-- One item alone is of least key exactly if all others are of greater key. -/
theorem least_filter_eq_singleton {p : α → Bool} : least key (l.filter p) = [a] ↔
    ∃ before after, l = before ++ a :: after ∧ p a = true ∧ ∀ b ∈ before ++ after, p b = true →
      key a < key b := by
  constructor
  · intro h
    unfold least at h
    rw [List.filter_filter] at h
    obtain ⟨before, after, rfl, dropped, holds, rest⟩ := List.filter_eq_cons_iff.1 h
    rw [Bool.and_eq_true, decide_eq_true_iff] at holds
    refine ⟨before, after, rfl, holds.2, fun b mem matched => ?_⟩
    have within : b ∈ before ++ a :: after := by
      rcases List.mem_append.1 mem with first | last
      · exact List.mem_append_left _ first
      · exact List.mem_append_right before (List.mem_cons_of_mem a last)
    have le : key a ≤ key b := holds.1 b (List.mem_filter.2 ⟨within, matched⟩)
    refine lt_of_le_of_ne le fun same => ?_
    have kept : (decide (∀ c ∈ (before ++ a :: after).filter p, key b ≤ key c) && p b) = true := by
      rw [Bool.and_eq_true, decide_eq_true_iff]
      exact ⟨fun c hc => same ▸ holds.1 c hc, matched⟩
    rcases List.mem_append.1 mem with first | last
    · exact dropped b first kept
    · exact absurd kept (by simpa using List.filter_eq_nil_iff.1 rest b last)
  · rintro ⟨before, after, rfl, matched, greater⟩
    have only : ∀ b ∈ before ++ after, p b = true → ¬ ∀ c ∈ (before ++ a :: after).filter p,
        key b ≤ key c := by
      intro b mem hb all
      have le := all a (List.mem_filter.2 ⟨List.mem_append_right before List.mem_cons_self, matched⟩)
      exact absurd le (not_le.2 (greater b mem hb))
    have min : ∀ c ∈ (before ++ a :: after).filter p, key a ≤ key c := by
      intro c mem
      obtain ⟨mem, hc⟩ := List.mem_filter.1 mem
      rcases List.mem_append.1 mem with first | last
      · exact (greater c (List.mem_append_left after first) hc).le
      · rcases List.mem_cons.1 last with rfl | last
        · exact le_rfl
        · exact (greater c (List.mem_append_right before last) hc).le
    have nothing : ∀ part : List α, (∀ b ∈ part, b ∈ before ++ after) →
        (part.filter fun b => decide (∀ c ∈ (before ++ a :: after).filter p, key b ≤ key c) && p b) = [] := by
      intro part within
      refine List.filter_eq_nil_iff.2 fun b mem kept => ?_
      rw [Bool.and_eq_true, decide_eq_true_iff] at kept
      exact only b (within b mem) kept.2 kept.1
    unfold least
    rw [List.filter_filter]
    rw [List.filter_append, nothing before fun b mem => List.mem_append_left after mem, List.nil_append,
      List.filter_cons_of_pos, nothing after fun b mem => List.mem_append_right before mem]
    rw [Bool.and_eq_true, decide_eq_true_iff]
    exact ⟨min, matched⟩

/-- The least key, found by comparing one after the other. -/
theorem filter_foldl_min {p : ι} {ps : List ι} (keys : l.map key = p :: ps) :
    (l.filter fun a => key a = ps.foldl min p) = least key l := by
  have bound : ∀ (ps : List ι) (p : ι), (∀ q ∈ p :: ps, ps.foldl min p ≤ q) ∧ ps.foldl min p ∈ p :: ps := by
    intro ps
    induction ps with
    | nil => exact fun p => ⟨fun q mem => by rw [List.mem_singleton.1 mem]; exact le_rfl, List.mem_cons_self⟩
    | cons q ps ih =>
      intro p
      obtain ⟨lower, attained⟩ := ih (min p q)
      rw [List.foldl_cons]
      constructor
      · intro r mem
        have first := lower (min p q) List.mem_cons_self
        rcases List.mem_cons.1 mem with rfl | mem
        · exact first.trans (min_le_left r q)
        · rcases List.mem_cons.1 mem with rfl | mem
          · exact first.trans (min_le_right p r)
          · exact lower r (List.mem_cons_of_mem _ mem)
      · rcases List.mem_cons.1 attained with same | later
        · rw [same]
          rcases le_total p q with le | le
          · rw [min_eq_left le]
            exact List.mem_cons_self
          · rw [min_eq_right le]
            exact List.mem_cons_of_mem p List.mem_cons_self
        · exact List.mem_cons_of_mem p (List.mem_cons_of_mem q later)
  obtain ⟨lower, attained⟩ := bound ps p
  rw [← keys] at lower attained
  obtain ⟨c, hc, same⟩ := List.mem_map.1 attained
  unfold least
  refine List.filter_congr fun a mem => decide_eq_decide.2 ⟨fun eq b hb => ?_, fun all => ?_⟩
  · rw [eq]
    exact lower (key b) (List.mem_map_of_mem hb)
  · exact le_antisymm (same ▸ all c hc) (lower (key a) (List.mem_map_of_mem mem))

end SreAgent.Base
