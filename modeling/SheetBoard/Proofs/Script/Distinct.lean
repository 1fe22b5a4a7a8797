import SheetBoard.Proofs.Table.Distinct
import SheetBoard.Script.Builtin

/-! The different values of an array, and those of a column by either way: as cells of the table,
and by the function on the column's data. -/

namespace SheetBoard.Script

open Library

/-! ### Sameness and order of values -/

namespace Value

mutual

theorem same_trans {u v w : Value} (huv : u.same v = true) (hvw : v.same w = true) :
    u.same w = true := by
  cases u with
  | null =>
      cases v with
      | null => exact hvw
      | _ => cases huv
  | boolean a =>
      cases v with
      | boolean b =>
          obtain rfl := beq_iff_eq.1 huv
          exact hvw
      | _ => cases huv
  | number x =>
      cases v with
      | number y =>
          cases w with
          | number z => exact Number.beq_trans huv hvw
          | _ => cases hvw
      | _ => cases huv
  | text s =>
      cases v with
      | text t =>
          obtain rfl := beq_iff_eq.1 huv
          exact hvw
      | _ => cases huv
  | array us =>
      cases v with
      | array vs =>
          cases w with
          | array ws => exact sameItems_trans huv hvw
          | _ => cases hvw
      | _ => cases huv

theorem sameItems_trans {us vs ws : List Value} (huv : sameItems us vs = true)
    (hvw : sameItems vs ws = true) : sameItems us ws = true := by
  cases us with
  | nil =>
      cases vs with
      | nil => exact hvw
      | cons => cases huv
  | cons u us =>
      cases vs with
      | nil => cases huv
      | cons v vs =>
          cases ws with
          | nil => cases hvw
          | cons w ws =>
              rw [sameItems, Bool.and_eq_true] at *
              exact ⟨same_trans huv.1 hvw.1, sameItems_trans huv.2 hvw.2⟩

end

theorem holdsNothing_of_same {u v : Value} (h : u.same v = true) :
    u.holdsNothing = v.holdsNothing := by
  cases u with
  | null =>
      cases v with
      | null => rfl
      | _ => cases h
  | boolean a =>
      cases v with
      | boolean b => rfl
      | _ => cases h
  | number x =>
      cases v with
      | number y =>
          obtain ⟨hx, hy⟩ := Number.not_isNaN_of_beq h
          exact hx.trans hy.symm
      | _ => cases h
  | text s =>
      cases v with
      | text t => rw [beq_iff_eq.1 (show (s == t) = true from h)]
      | _ => cases h
  | array us =>
      cases v with
      | array vs => rfl
      | _ => cases h

theorem tellsApart : TellsApart holdsNothing same where
  trans := same_trans
  filled hab hb := (holdsNothing_of_same hab).trans hb

def sortKey : Value → SortKey
  | .number x => { rank := 0, number := Number.orderKey x }
  | .text s => { rank := 1, text := s }
  | _ => { rank := 2 }

/-- Values that hold something are sorted by their keys. -/
theorem sortOrder_eq {a b : Value} (ha : a.holdsNothing = false) (hb : b.holdsNothing = false) :
    sortOrder a b = compare a.sortKey b.sortKey := by
  cases a with
  | number x =>
      cases b with
      | number y =>
          have horder : (Value.number x).order? (.number y) = Number.order? x y := rfl
          simp [sortOrder, horder, Number.order?_eq ha hb, sortKey, SortKey.compare_def]
      | _ => rfl
  | text s =>
      cases b with
      | text t => simp [sortOrder, order?, sortKey, SortKey.compare_def]
      | _ => rfl
  | _ => cases b <;> rfl

end Value

theorem distinctValues_eq (vs : List Value) :
    distinctValues vs = firstOccurrences Value.holdsNothing Value.same vs :=
  foldl_addDistinct Value.tellsApart vs

theorem pairwise_sortOrder (vs : List Value) :
    ((distinctValues vs).mergeSort fun a b => (sortOrder a b).isLE).Pairwise
      fun a b => (sortOrder a b).isLE = true := by
  rw [distinctValues_eq]
  exact pairwise_mergeSort_of_key fun a ha b hb => Value.sortOrder_eq
    (not_blank_of_mem_firstOccurrences ha) (not_blank_of_mem_firstOccurrences hb)

/-- The function takes its second argument, if there is one, as the flag. -/
theorem apply_unique (ctx : Context) (vs flags : List Value) :
    Builtin.apply ctx (.array vs :: flags) .unique =
      .ok (.array (if flags.head?.any Value.isTrue then
        (distinctValues vs).mergeSort fun a b => (sortOrder a b).isLE else distinctValues vs)) := by
  have hflag : (argument (.array vs :: flags) 1).isTrue = flags.head?.any Value.isTrue := by
    cases flags <;> rfl
  rw [Builtin.apply, fromFirst_cons, unique, hflag]
  split <;> rfl

/-! ### Columns -/

/-- Neither a truth value nor an empty text. -/
def Ordinary (c : Cell) : Prop := (∀ b, c ≠ .boolean b) ∧ c ≠ .text ""

theorem Value.same_ofCell (a b : Cell) : (ofCell a).same (ofCell b) = a.same b := by
  cases a <;> cases b <;> rfl

theorem Ordinary.holdsNothing_ofCell {c : Cell} (h : Ordinary c) :
    (Value.ofCell c).holdsNothing = c.isMissing := by
  cases c with
  | text s =>
      have hs : s ≠ "" := fun hs => h.2 (by rw [hs])
      simpa [Value.ofCell, Value.holdsNothing, Cell.isMissing] using hs
  | _ => rfl

theorem distinctValues_ofCell {cells : List Cell} (h : ∀ c ∈ cells, Ordinary c) :
    distinctValues (cells.map .ofCell) = (Table.distinct cells).map .ofCell := by
  rw [distinctValues_eq, Table.distinct_eq]
  refine firstOccurrences_map (fun c hc => (h c hc).holdsNothing_ofCell) fun a b => ?_
  rw [Value.same_ofCell, Cell.same_comm]

/-- Among numbers and texts the two sorting orders agree. -/
theorem sortOrder_ofCell {a b : Cell} (ha : Ordinary a) (hb : Ordinary b)
    (hafilled : a.isMissing = false) (hbfilled : b.isMissing = false) :
    sortOrder (.ofCell a) (.ofCell b) = a.order b := by
  cases a with
  | empty => cases hafilled
  | boolean p => exact absurd rfl (ha.1 p)
  | number x =>
      cases b with
      | empty => cases hbfilled
      | boolean q => exact absurd rfl (hb.1 q)
      | _ => rfl
  | text s =>
      cases b with
      | empty => cases hbfilled
      | boolean q => exact absurd rfl (hb.1 q)
      | _ => rfl

theorem mergeSort_ofCell {cells : List Cell} (h : ∀ c ∈ cells, Ordinary c) :
    (distinctValues (cells.map .ofCell)).mergeSort (fun a b => (sortOrder a b).isLE) =
      ((Table.distinct cells).mergeSort fun a b => (a.order b).isLE).map .ofCell := by
  have hmem : ∀ c ∈ Table.distinct cells, Ordinary c ∧ c.isMissing = false := by
    rw [Table.distinct_eq]
    exact fun c hc =>
      ⟨h c ((firstOccurrences_sublist _).subset hc), not_blank_of_mem_firstOccurrences hc⟩
  rw [distinctValues_ofCell h]
  refine (List.map_mergeSort fun a ha b hb => ?_).symm
  rw [sortOrder_ofCell (hmem a ha).1 (hmem b hb).1 (hmem a ha).2 (hmem b hb).2]

/-- The different values of a column are sorted cells of it that are not missing, no two of them the
same, and every such cell is the same as one of them. Those of an array are the first occurrences of
the values that hold something, in order, or the same values sorted. On the data of a column without
truth values and empty texts the sorted values are those of the column. -/
theorem distinct_exact (t : Table) (letters : List Char) (ctx : Context) (vs : List Value) :
    Table.DistinctCells (t.columnCells letters) (t.sortedValues letters) ∧
    (∀ flags, flags.head?.any Value.isTrue = false →
      Builtin.apply ctx (.array vs :: flags) .unique =
        .ok (.array (firstOccurrences Value.holdsNothing Value.same vs))) ∧
    (∀ flags, flags.head?.any Value.isTrue = true →
      ∃ sorted, Builtin.apply ctx (.array vs :: flags) .unique = .ok (.array sorted) ∧
        sorted.Perm (firstOccurrences Value.holdsNothing Value.same vs) ∧
        sorted.Pairwise fun a b => (sortOrder a b).isLE = true) ∧
    ((∀ c ∈ t.columnCells letters, (∀ b, c ≠ .boolean b) ∧ c ≠ .text "") →
      Builtin.apply ctx [.array ((t.columnCells letters).map .ofCell), .boolean true] .unique =
        .ok (.array ((t.sortedValues letters).map .ofCell))) := by
  refine ⟨Table.distinctCells_sortedValues t letters, fun flags hflag => ?_, fun flags hflag => ?_,
    fun hordinary => ?_⟩
  · rw [apply_unique, hflag, distinctValues_eq]
    rfl
  · refine ⟨_, (apply_unique ctx vs flags).trans (by rw [hflag]; rfl), ?_, pairwise_sortOrder vs⟩
    rw [← distinctValues_eq]
    exact List.mergeSort_perm _ _
  · have hflag : ([.boolean true] : List Value).head?.any Value.isTrue = true := rfl
    rw [apply_unique, hflag, if_pos rfl, mergeSort_ofCell hordinary, Table.sortedValues,
      Table.columnFrom_zero]

theorem distinct_exact_mixed :
    let ctx : Context := ⟨none, ⟨2024, 3, 15⟩⟩
    let cells : List Cell :=
      [.text "b", .number (-0.0), .empty, .text "b", .number 0, .number (0.0 / 0.0)]
    let t : Table := ⟨⟨["v"]⟩, [cells], 6⟩
    let data := Value.array (cells.map .ofCell)
    t.columnCells ['A'] = cells ∧
    (∀ c ∈ cells, (∀ b, c ≠ .boolean b) ∧ c ≠ .text "") ∧
    Builtin.apply ctx [data] .unique = .ok (.array [.text "b", .number (-0.0)]) ∧
    (∃ sorted, Builtin.apply ctx [data, .number 1] .unique = .ok (.array sorted) ∧
      sorted.Perm [.text "b", .number (-0.0)] ∧
      sorted.Pairwise fun a b => (sortOrder a b).isLE = true) ∧
    Builtin.apply ctx [data, .boolean true] .unique = .ok (.array [.number (-0.0), .text "b"]) := by
  intro ctx cells t data
  have hcells : t.columnCells ['A'] = cells := by decide +kernel
  have hordinary : ∀ c ∈ cells, (∀ b, c ≠ .boolean b) ∧ c ≠ .text "" := by simp [cells]
  have hdistinct : Table.distinct cells = [.text "b", .number (-0.0)] := by decide +kernel
  have hfirst : firstOccurrences Value.holdsNothing Value.same (cells.map .ofCell) =
      [.text "b", .number (-0.0)] := by
    rw [← distinctValues_eq, distinctValues_ofCell hordinary, hdistinct]
    rfl
  have hsorted : t.sortedValues ['A'] = [.number (-0.0), .text "b"] := by
    have horder : (Cell.order (.text "b") (.number (-0.0))).isLE = false := by decide +kernel
    rw [Table.sortedValues, Table.columnFrom_zero, hcells, hdistinct]
    simp [List.mergeSort, List.MergeSort.Internal.splitInTwo, horder]
  obtain ⟨-, hplain, hflagged, hcolumn⟩ := distinct_exact t ['A'] ctx (cells.map .ofCell)
  rw [hfirst] at hplain hflagged
  rw [hcells, hsorted] at hcolumn
  exact ⟨hcells, hordinary, hplain [] rfl, hflagged [.number 1] (by decide +kernel),
    hcolumn hordinary⟩

end SheetBoard.Script
