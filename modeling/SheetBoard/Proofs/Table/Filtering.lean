import SheetBoard.Proofs.Table.Grid

/-! Filters and conditions on the rows of a table. Each of them chooses rows by their fields alone,
so that several may be applied at once, one after the other and in any order. -/

namespace SheetBoard

/-- The fields meet a condition. Only they are looked at, so that any number will do for the row. -/
def Grid.satisfies (schema : Schema) (fields : List Cell) (condition : Condition) : Bool :=
  condition.accepts ⟨schema, 0, fields⟩

namespace Table

/-- The second table has the rows of the first whose fields satisfy `keep`, in the same order, with
all columns. -/
structure Kept (t : Table) (keep : List Cell → Bool) (u : Table) : Prop where
  wellFormed : u.WellFormed
  grid : u.grid = ⟨t.schema, t.grid.rows.filter keep⟩

namespace Kept

variable {t u v : Table} {p q : List Cell → Bool}

theorem schema (h : t.Kept p u) : u.schema = t.schema := congrArg Grid.schema h.grid

theorem trans (h : t.Kept p u) (h' : u.Kept q v) :
    t.Kept (fun fields => p fields && q fields) v where
  wellFormed := h'.wellFormed
  grid := by
    rw [h'.grid, h.schema, h.grid, List.filter_filter]
    exact congrArg (Grid.mk t.schema) (List.filter_congr fun fields _ => Bool.and_comm _ _)

/-- Equal choices leave the same table. -/
theorem eq (h : t.Kept p u) (h' : t.Kept q v) (hkeep : ∀ fields, p fields = q fields) : u = v := by
  apply eq_of_grid_eq h.wellFormed h'.wellFormed
  rw [h.grid, h'.grid, funext hkeep]

end Kept

theorem kept_filterBy {t : Table} (h : t.WellFormed) (filters : List (String × Filter)) :
    t.Kept (fun fields => filters.all (Grid.meets t.schema fields)) (t.filterBy filters) where
  wellFormed := wellFormed_pickRows h _
  grid := grid_filterBy h filters

theorem kept_retain {t : Table} (h : t.WellFormed) (conditions : List Condition) :
    t.Kept (fun fields => conditions.all (Grid.satisfies t.schema fields))
      (t.retain conditions) where
  wellFormed := wellFormed_pickRows h _
  grid := grid_retain h conditions

/-- The laws of choosing the rows that meet a list of demands. -/
structure Narrows {α : Type} (t : Table) (narrow : Table → List α → Table)
    (meets : Schema → List Cell → α → Bool) : Prop where
  /-- What is left are the rows that meet every demand, in their order and with all columns. -/
  kept (xs : List α) : t.Kept (fun fields => xs.all (meets t.schema fields)) (narrow t xs)
  append (xs ys : List α) : narrow t (xs ++ ys) = narrow (narrow t xs) ys
  perm {xs ys : List α} (h : xs.Perm ys) : narrow t xs = narrow t ys
  idempotent (xs : List α) : narrow (narrow t xs) xs = narrow t xs

/-- All laws follow from the first one. -/
theorem narrows_of_kept {α : Type} {narrow : Table → List α → Table}
    {meets : Schema → List Cell → α → Bool}
    (hkept : ∀ (t : Table), t.WellFormed → ∀ xs,
      t.Kept (fun fields => xs.all (meets t.schema fields)) (narrow t xs))
    {t : Table} (ht : t.WellFormed) : t.Narrows narrow meets := by
  have htwice : ∀ xs ys, t.Kept
      (fun fields => xs.all (meets t.schema fields) && ys.all (meets t.schema fields))
      (narrow (narrow t xs) ys) := by
    intro xs ys
    have hfirst := hkept t ht xs
    have hsecond := hkept _ hfirst.wellFormed ys
    rw [hfirst.schema] at hsecond
    exact hfirst.trans hsecond
  refine ⟨hkept t ht, fun xs ys => ?_, fun hperm => ?_, fun xs => ?_⟩
  · exact (hkept t ht _).eq (htwice xs ys) fun fields => List.all_append
  · exact (hkept t ht _).eq (hkept t ht _) fun fields => hperm.all_eq
  · exact (htwice xs xs).eq (hkept t ht xs) fun fields => Bool.and_self _

theorem narrows_filterBy {t : Table} (ht : t.WellFormed) : t.Narrows filterBy Grid.meets :=
  narrows_of_kept (fun _ => kept_filterBy) ht

theorem narrows_retain {t : Table} (ht : t.WellFormed) : t.Narrows retain Grid.satisfies :=
  narrows_of_kept (fun _ => kept_retain) ht

theorem retain_filterBy_comm {t : Table} (ht : t.WellFormed) (filters : List (String × Filter))
    (conditions : List Condition) :
    (t.filterBy filters).retain conditions = (t.retain conditions).filterBy filters := by
  have hfilters := kept_filterBy ht filters
  have hconditions := kept_retain ht conditions
  have hleft := kept_retain hfilters.wellFormed conditions
  have hright := kept_filterBy hconditions.wellFormed filters
  rw [hfilters.schema] at hleft
  rw [hconditions.schema] at hright
  exact (hfilters.trans hleft).eq (hconditions.trans hright) fun fields => Bool.and_comm _ _

theorem filterBy_nil {t : Table} (ht : t.WellFormed) : t.filterBy [] = t :=
  (kept_filterBy ht []).eq ⟨ht, by simp [grid]⟩ (q := fun _ => true) fun _ => rfl

theorem retain_nil {t : Table} (ht : t.WellFormed) : t.retain [] = t :=
  (kept_retain ht []).eq ⟨ht, by simp [grid]⟩ (q := fun _ => true) fun _ => rfl

/-- Filters and conditions in turn come to all filters and then all conditions. -/
theorem foldl_narrow (steps : List (List (String × Filter) × List Condition)) {t : Table}
    (ht : t.WellFormed) :
    steps.foldl (fun u step => (u.filterBy step.1).retain step.2) t =
      (t.filterBy (steps.flatMap Prod.fst)).retain (steps.flatMap Prod.snd) := by
  induction steps generalizing t with
  | nil => exact ((congrArg (retain · []) (filterBy_nil ht)).trans (retain_nil ht)).symm
  | cons step steps ih =>
      have hfilters := (kept_filterBy ht step.1).wellFormed
      have hnext := (kept_retain hfilters step.2).wellFormed
      have hboth := (kept_filterBy hfilters (steps.flatMap Prod.fst)).wellFormed
      rw [List.foldl_cons, ih hnext, ← retain_filterBy_comm hfilters, List.flatMap_cons,
        List.flatMap_cons, (narrows_filterBy ht).append, (narrows_retain hboth).append]

/-- Filters keep the rows whose cells every filter accepts that is set and names a column. A list of
filters may be split, put in another order or applied again, and all this holds of conditions as
well. Filters and conditions commute, and go in any turn. -/
theorem narrows_filterBy_retain {t : Table} (ht : t.WellFormed) :
    t.Narrows filterBy Grid.meets ∧
      t.Narrows retain Grid.satisfies ∧
      (∀ filters conditions,
        (t.filterBy filters).retain conditions = (t.retain conditions).filterBy filters) ∧
      ∀ steps : List (List (String × Filter) × List Condition),
        steps.foldl (fun u step => (u.filterBy step.1).retain step.2) t =
          (t.filterBy (steps.flatMap Prod.fst)).retain (steps.flatMap Prod.snd) :=
  ⟨narrows_filterBy ht, narrows_retain ht, retain_filterBy_comm ht,
    fun steps => foldl_narrow steps ht⟩

/-- Two columns of one name but for its case, a filter that is unset and one for no column. -/
theorem narrows_filterBy_retain_regions :
    let t : Table := ⟨⟨["Region", "units", "region"]⟩,
      [[.text "east", .text "west", .text "east", .text "north"],
        [.number 5, .number 7, .text "12", .empty],
        [.text "west", .text "west", .text "east", .text "west"]], 4⟩
    let filters : List (String × Filter) := [("REGION", .any [.text "east", .text "north"]),
      ("units", .range (some 1) none), ("units", .single .empty), ("Country", .single (.text "x"))]
    let conditions : List Condition := [⟨"region", .notEqual, .text "west"⟩]
    let kept : Table := ⟨t.schema, [[.text "east", .text "east"], [.number 5, .text "12"],
      [.text "west", .text "east"]], 2⟩
    t.WellFormed ∧ t.filterBy filters.reverse = kept ∧
      (t.retain conditions).filterBy filters = kept.retain conditions ∧
      kept.filterBy filters = kept ∧ (kept.retain conditions).rowCount = 1 := by
  intro t filters conditions kept
  have ht : t.WellFormed := ⟨by decide, by decide⟩
  have hkept : t.filterBy filters = kept := by decide +kernel
  obtain ⟨hfilters, -, hcommute, -⟩ := narrows_filterBy_retain ht
  refine ⟨ht, ?_, ?_, ?_, by decide +kernel⟩
  · rw [← hfilters.perm filters.reverse_perm.symm, hkept]
  · rw [← hcommute, hkept]
  · rw [← hkept, hfilters.idempotent]

end Table

end SheetBoard
