import Mathlib
import SreAgent.Base.Table

/-!
# Keyset pagination

A page holds the rows whose key lies below a cursor, from the largest key down, and one row more is
looked at to tell whether others follow. `follow` reads page after page. Whatever limits the pages
have, following the cursors from the start yields the rows in descending order (`follow_pages`).
-/

namespace SreAgent.Base.Keyset

variable {ρ κ : Type*} [LinearOrder κ] (key : ρ → κ)

/-- `ORDER BY key DESC`. -/
def descending (rows : List ρ) : List ρ := rows.insertionSort fun a b => key b ≤ key a

/-- `cursor IS NULL OR key < cursor`. -/
def below (cursor : Option κ) (rows : List ρ) : List ρ :=
  rows.filter fun row => cursor.all fun k => key row < k

/-- The rows of a page, and the key to go on from if other rows follow. -/
def page (cursor : Option κ) (limit : Nat) (rows : List ρ) : List ρ × Option κ :=
  let found := (descending key (below key cursor rows)).take (limit + 1)
  (found.take limit, if limit < found.length then (found.take limit).getLast?.map key else none)

/-- Pages read one after the other, until one has no cursor to go on from. -/
def follow {α γ ε limit : Type*} (read : Option γ → limit → Except ε (List α × Option γ))
    (limits : Nat → limit) :
    Nat → Option γ → Except ε (Option (List α))
  | 0, _ => .ok none
  | fuel + 1, cursor =>
    match read cursor (limits 0) with
    | .error e => .error e
    | .ok (items, none) => .ok (some items)
    | .ok (items, some next) =>
      (follow read (fun n => limits (n + 1)) fuel (some next)).map (Option.map (items ++ ·))

/-! ## Descending rows -/

section Descending

variable {key} {rows : List ρ}

/-- Sorting permutes the rows. -/
theorem descending_perm (rows : List ρ) : (descending key rows).Perm rows := List.perm_insertionSort _ rows

/-- Sorting keeps the keys distinct. -/
theorem descending_keyed (keyed : Table.Keyed key rows) : Table.Keyed key (descending key rows) :=
  ((descending_perm rows).map key).nodup_iff.2 keyed

/-- Where keys are distinct, each row comes before those of smaller key. -/
theorem descending_pairwise (keyed : Table.Keyed key rows) :
    (descending key rows).Pairwise fun a b => key b < key a := by
  have : Std.Total fun a b : ρ => key b ≤ key a := ⟨fun a b => le_total (key b) (key a)⟩
  have : IsTrans ρ fun a b => key b ≤ key a := ⟨fun _ _ _ hab hbc => hbc.trans hab⟩
  have sorted := List.pairwise_insertionSort (fun a b => key b ≤ key a) rows
  have distinct : (descending key rows).Pairwise fun a b => key a ≠ key b :=
    List.pairwise_map.1 (descending_keyed keyed)
  refine (List.Pairwise.and sorted distinct).imp ?_
  rintro a b ⟨le, ne⟩
  exact lt_of_le_of_ne le ne.symm

/-- The first row has the largest key. -/
theorem head_descending {row : ρ} {rest : List ρ} (h : descending key rows = row :: rest) :
    row ∈ rows ∧ ∀ other ∈ rows, key other ≤ key row := by
  have : Std.Total fun a b : ρ => key b ≤ key a := ⟨fun a b => le_total (key b) (key a)⟩
  have : IsTrans ρ fun a b => key b ≤ key a := ⟨fun _ _ _ hab hbc => hbc.trans hab⟩
  have sorted : (descending key rows).Pairwise fun a b => key b ≤ key a := List.pairwise_insertionSort _ rows
  have perm : (row :: rest).Perm rows := h ▸ descending_perm rows
  rw [h] at sorted
  constructor
  · exact perm.subset List.mem_cons_self
  · intro other mem
    rcases List.mem_cons.1 (perm.symm.subset mem) with rfl | mem
    · exact le_rfl
    · exact (List.pairwise_cons.1 sorted).1 other mem

/-- A strictly descending list is the descending order of its rows. -/
theorem eq_descending {sorted : List ρ} (strict : sorted.Pairwise fun a b => key b < key a)
    (perm : sorted.Perm rows) :
    sorted = descending key rows := by
  have keyed : Table.Keyed key rows := by
    refine (perm.map key).nodup_iff.1 (List.pairwise_map.2 (strict.imp ?_))
    intro a b lt
    exact lt.ne'
  refine List.Perm.eq_of_pairwise ?_ strict (descending_pairwise keyed)
    (perm.trans (descending_perm rows).symm)
  intro a b _ _ lt gt
  exact absurd (lt.trans gt) (lt_irrefl _)

/-- Filtering and ordering commute. -/
theorem descending_filter (keyed : Table.Keyed key rows) (p : ρ → Bool) :
    descending key (rows.filter p) = (descending key rows).filter p :=
  (eq_descending ((descending_pairwise keyed).filter p) ((descending_perm rows).filter p)).symm

/-- Below the key of a row of a descending list come the rows after it. -/
theorem below_key {before after : List ρ} {row : ρ}
    (strict : (before ++ row :: after).Pairwise fun a b => key b < key a) :
    below key (some (key row)) (before ++ row :: after) = after := by
  obtain ⟨-, tail, cross⟩ := List.pairwise_append.1 strict
  have rest := List.pairwise_cons.1 tail
  have none_ : before.filter (fun a => decide (key a < key row)) = [] := by
    refine List.filter_eq_nil_iff.2 fun a ha => ?_
    rw [decide_eq_true_eq]
    exact (cross a ha row List.mem_cons_self).le.not_gt
  have all : after.filter (fun a => decide (key a < key row)) = after :=
    List.filter_eq_self.2 fun a ha => decide_eq_true (rest.1 a ha)
  simp only [below, Option.all_some, List.filter_append, none_, List.nil_append, List.filter_cons,
    lt_irrefl, decide_false, Bool.false_eq_true, if_false, all]

end Descending

/-! ## Ranks -/

section Ranks

variable {key} {rows : List ρ}

/-- The ascending order is the descending one of the dual order. -/
theorem ascending_pairwise (keyed : Table.Keyed key rows) :
    (rows.insertionSort fun a b => key a ≤ key b).Pairwise fun a b => key a < key b :=
  descending_pairwise (show Table.Keyed (OrderDual.toDual ∘ key) rows from keyed)

/-- Ascending order and a condition that holds of smaller rows as well commute with numbering. -/
theorem zipIdx_filter {l : List ρ} {p : ρ → Bool} (closed : l.Pairwise fun a b => p b = true → p a = true)
    (n : Nat) :
    (l.filter p).zipIdx n = (l.zipIdx n).filter fun entry => p entry.1 := by
  induction l generalizing n with
  | nil => rfl
  | cons a l ih =>
    obtain ⟨head, tail⟩ := List.pairwise_cons.1 closed
    by_cases ha : p a = true
    · rw [List.filter_cons_of_pos ha, List.zipIdx_cons, List.zipIdx_cons, List.filter_cons,
        if_pos (show p (a, n).1 = true from ha), ih tail]
    · have none_ : ∀ b ∈ l, ¬ p b = true := fun b hb pb => ha (head b hb pb)
      rw [List.filter_cons_of_neg ha, List.filter_eq_nil_iff.2 none_]
      symm
      refine List.filter_eq_nil_iff.2 fun entry hentry => ?_
      rw [List.zipIdx_cons] at hentry
      rcases List.mem_cons.1 hentry with rfl | later
      · exact ha
      · exact none_ _ (List.fst_mem_of_mem_zipIdx later)

/-- The index of a row in ascending order is the number of rows of smaller key. -/
theorem index_eq_rank (keyed : Table.Keyed key rows) {row : ρ} {index : Nat}
    (h : (row, index) ∈ (rows.insertionSort fun a b => key a ≤ key b).zipIdx) :
    index = (rows.filter fun a => key a < key row).length := by
  obtain ⟨sorted, hsorted⟩ : ∃ sorted, sorted = rows.insertionSort fun a b => key a ≤ key b := ⟨_, rfl⟩
  have strict : sorted.Pairwise fun a b => key a < key b := hsorted ▸ ascending_pairwise keyed
  have perm : sorted.Perm rows := hsorted ▸ List.perm_insertionSort _ rows
  rw [← hsorted, List.mem_zipIdx_iff_getElem?] at h
  obtain ⟨lt, at_⟩ : ∃ lt : index < sorted.length, sorted[index] = row := List.getElem?_eq_some_iff.1 h
  have split : sorted = sorted.take index ++ row :: sorted.drop (index + 1) := by
    rw [← at_, ← List.drop_eq_getElem_cons lt, List.take_append_drop]
  have smaller : sorted.filter (fun a => decide (key a < key row)) = sorted.take index := by
    rw [split] at strict
    obtain ⟨-, tail, cross⟩ := List.pairwise_append.1 strict
    have rest := List.pairwise_cons.1 tail
    have before : (sorted.take index).filter (fun a => decide (key a < key row)) = sorted.take index :=
      List.filter_eq_self.2 fun a ha => decide_eq_true (cross a ha row List.mem_cons_self)
    have after : (sorted.drop (index + 1)).filter (fun a => decide (key a < key row)) = [] := by
      refine List.filter_eq_nil_iff.2 fun a ha => ?_
      rw [decide_eq_true_eq]
      exact (rest.1 a ha).le.not_gt
    conv_lhs => rw [split]
    rw [List.filter_append, List.filter_cons, before, after]
    simp
  rw [← (perm.filter _).length_eq, smaller, List.length_take]
  omega

end Ranks

/-! ## Pages -/

section Pages

variable {key} {rows : List ρ} (keyed : Table.Keyed key rows) {cursor : Option κ} {limit : Nat}

include keyed

/-- Cutting at the cursor and sorting commute. -/
theorem descending_below : descending key (below key cursor rows) = below key cursor (descending key rows) :=
  descending_filter keyed _

/-- The last page. -/
theorem page_last (h : (below key cursor (descending key rows)).length ≤ limit) :
    page key cursor limit rows = (below key cursor (descending key rows), none) := by
  unfold page
  dsimp only
  rw [descending_below keyed, List.take_of_length_le (Nat.le_succ_of_le h), List.take_of_length_le h,
    if_neg (Nat.not_lt.2 h)]

/-- A page before the last one: its cursor leaves the rows after it. -/
theorem page_next (pos : 0 < limit) (h : limit < (below key cursor (descending key rows)).length) :
    ∃ k, page key cursor limit rows = ((below key cursor (descending key rows)).take limit, some k) ∧
      below key (some k) (descending key rows) = (below key cursor (descending key rows)).drop limit := by
  obtain ⟨rest, hrest⟩ : ∃ rest, rest = below key cursor (descending key rows) := ⟨_, rfl⟩
  rw [← hrest] at h ⊢
  have strict := descending_pairwise keyed
  have strictRest : rest.Pairwise fun a b => key b < key a := hrest ▸ strict.filter _
  obtain ⟨before, last, hlast⟩ : ∃ before last, rest.take limit = before ++ [last] := by
    have ne : rest.take limit ≠ [] := by
      intro nil
      have length := congrArg List.length nil
      rw [List.length_take, List.length_nil] at length
      omega
    exact ⟨_, _, (List.dropLast_append_getLast ne).symm⟩
  have split : rest = before ++ last :: rest.drop limit := by
    conv_lhs => rw [← List.take_append_drop limit rest, hlast, List.append_assoc]
    rfl
  refine ⟨key last, ?_, ?_⟩
  · unfold page
    dsimp only
    rw [descending_below keyed, ← hrest, List.take_take, Nat.min_eq_left (Nat.le_succ limit),
      List.length_take, if_pos (by omega), hlast, List.getLast?_append]
    rfl
  · -- the rows below the last one of the page lie below the cursor it was read with
    have mem : last ∈ below key cursor (descending key rows) := by
      rw [← hrest, split]
      simp
    have under : ∀ k ∈ cursor, key last < k := by
      intro k hk
      have all := (List.mem_filter.1 mem).2
      rw [hk, Option.all_some, decide_eq_true_eq] at all
      exact all
    have narrowed : below key (some (key last)) (descending key rows) = below key (some (key last)) rest := by
      rw [hrest, below, below, below, List.filter_filter]
      refine List.filter_congr fun row _ => ?_
      rw [Option.all_some, Bool.eq_iff_iff, Bool.and_eq_true, decide_eq_true_eq]
      refine ⟨fun lt => ⟨lt, ?_⟩, And.left⟩
      cases cursor with
      | none => rfl
      | some k => exact decide_eq_true (lt.trans (under k rfl))
    have after : below key (some (key last)) (before ++ last :: rest.drop limit) = rest.drop limit :=
      below_key (split ▸ strictRest)
    rw [narrowed]
    rwa [← split] at after

end Pages

/-- Following the cursors of the pages of a table yields its rows in descending order, whatever the limits. -/
theorem follow_pages {key} {rows : List ρ} (keyed : Table.Keyed key rows) {α γ ε limit : Type*}
    {read : Option γ → limit → Except ε (List α × Option γ)} (show_ : ρ → α) (encode : κ → γ)
    (bound : limit → Nat) (pos : ∀ n, 0 < bound n) (pages : ∀ cursor n, read (cursor.map encode) n =
      .ok ((page key cursor (bound n) rows).1.map show_, (page key cursor (bound n) rows).2.map encode))
    (limits : Nat → limit) {fuel : Nat} (cursor : Option κ)
    (enough : (below key cursor (descending key rows)).length < fuel) :
    follow read limits fuel (cursor.map encode) =
      .ok (some ((below key cursor (descending key rows)).map show_)) := by
  induction fuel generalizing limits cursor with
  | zero => exact absurd enough (Nat.not_lt_zero _)
  | succ fuel ih =>
    rw [follow, pages]
    by_cases last : (below key cursor (descending key rows)).length ≤ bound (limits 0)
    · rw [page_last keyed last]
      rfl
    · obtain ⟨k, hpage, rest⟩ := page_next keyed (pos (limits 0)) (Nat.lt_of_not_le last)
      have shorter : (below key (some k) (descending key rows)).length < fuel := by
        rw [rest, List.length_drop]
        have := pos (limits 0)
        omega
      have later := ih (fun n => limits (n + 1)) (some k) shorter
      rw [hpage]
      change Except.map _ (follow read _ fuel ((some k).map encode)) = _
      rw [later, rest, Except.map, Option.map_some, ← List.map_append, List.take_append_drop]

end SreAgent.Base.Keyset
