import SheetBoard.Proofs.Script.Rowwise

/-! Conditional sums next to sums. A sum passes over truth values, a conditional sum takes them for
one and zero; all other values count in both or in neither. -/

namespace SheetBoard.Script

open Library

namespace Value

/-- What a conditional sum adds: truth values as numbers, and all else as it is. -/
def asAddend : Value → Value
  | .boolean b => .number (if b then 1 else 0)
  | v => v

theorem asAddend_of_ne_boolean {v : Value} (h : ∀ b, v ≠ .boolean b) : v.asAddend = v := by
  cases v with
  | boolean b => exact absurd rfl (h b)
  | _ => rfl

@[simp] theorem isArray_asAddend (v : Value) : v.asAddend.isArray = v.isArray := by
  cases v <;> rfl

theorem items_of_isArray_eq_false {v : Value} (h : v.isArray = false) : v.items = [v] := by
  cases v with
  | array items => cases h
  | _ => rfl

theorem countedNumber?_asAddend (v : Value) :
    countedNumber? v.asAddend = v.toFloat?.filter (!·.isNaN) := by
  have hnumber : ∀ x : Float, countedNumber? (.number x) = (some x).filter (!·.isNaN) := by
    intro x
    cases hx : x.isNaN <;> simp only [countedNumber?, Option.filter, hx] <;> rfl
  cases v with
  | number x => exact hnumber x
  | boolean b => exact hnumber _
  | text s => rfl
  | null => rfl
  | array items => rfl

end Value

/-! ### Sums of single values -/

theorem sum_items {v : Value} (h : ∀ w ∈ v.items, w.isArray = false) :
    sum [v] = .number (total (v.items.filterMap countedNumber?)) := by
  have hitems : v.items.flatMap Value.items = v.items := by
    rw [List.flatMap_def, List.map_congr_left fun w hw => Value.items_of_isArray_eq_false (h w hw),
      ← List.flatMap_def]
    exact List.flatMap_singleton' v.items
  rw [sum, countedNumbers, allValues, List.flatMap_singleton, hitems]

/-- The addends whose partners in the range meet the criterion. -/
def chosenAddends (range : Value) (criterion : Criterion) (addends : Value) : List Value :=
  ((range.items.zip addends.items).filter (criterion.accepts ·.1)).map Prod.snd

/-- A conditional sum is the sum of the chosen addends, with truth values as numbers. -/
theorem sumIf_eq (range criterion : Value) {addends : Value}
    (h : ∀ w ∈ addends.items, w.isArray = false) :
    sumIf range criterion (some addends) =
      sum [.array ((chosenAddends range (.ofValue criterion) addends).map Value.asAddend)] := by
  have hsingle : ∀ w ∈ (chosenAddends range (.ofValue criterion) addends).map Value.asAddend,
      w.isArray = false := by
    intro w hw
    obtain ⟨v, hv, rfl⟩ := List.mem_map.1 hw
    obtain ⟨p, hp, rfl⟩ := List.mem_map.1 hv
    rw [Value.isArray_asAddend]
    exact h p.2 (List.of_mem_zip (List.mem_filter.1 hp).1).2
  have hnumbers : countedNumber? ∘ Value.asAddend = fun v => v.toFloat?.filter (!·.isNaN) :=
    funext Value.countedNumber?_asAddend
  let pairs := (range.items.zip addends.items).filter ((Criterion.ofValue criterion).accepts ·.1)
  calc sumIf range criterion (some addends)
    _ = .number (total ((pairs.filterMap (·.2.toFloat?)).filter (!·.isNaN))) := rfl
    _ = .number (total ((chosenAddends range (.ofValue criterion) addends).filterMap
          fun v => v.toFloat?.filter (!·.isNaN))) := by
        rw [List.filter_filterMap, chosenAddends, List.filterMap_map]
        rfl
    _ = sum [.array ((chosenAddends range (.ofValue criterion) addends).map Value.asAddend)] := by
        rw [sum_items (v := .array _) hsingle, Value.items, List.filterMap_map, hnumbers]

theorem chosenAddends_of_accepts {range addends : Value} {criterion : Criterion}
    (haccepts : ∀ v ∈ range.items, criterion.accepts v = true)
    (hlength : range.items.length = addends.items.length) :
    chosenAddends range criterion addends = addends.items := by
  have hchosen : (range.items.zip addends.items).filter (criterion.accepts ·.1) =
      range.items.zip addends.items :=
    List.filter_eq_self.2 fun p hp => haccepts p.1 (List.of_mem_zip hp).1
  rw [chosenAddends, hchosen, List.map_snd_zip (Nat.le_of_eq hlength.symm)]

/-- Where the whole range meets the criterion, a conditional sum is the sum of the addends with
truth values as numbers. It is their plain sum if no truth value is among them. -/
theorem sumIf_eq_sum {range criterion addends : Value}
    (haccepts : ∀ v ∈ range.items, (Criterion.ofValue criterion).accepts v = true)
    (hlength : range.items.length = addends.items.length)
    (hsingle : ∀ w ∈ addends.items, w.isArray = false) :
    sumIf range criterion (some addends) = sum [.array (addends.items.map Value.asAddend)] ∧
      ((∀ w ∈ addends.items, ∀ b, w ≠ .boolean b) →
        sumIf range criterion (some addends) = sum [addends]) := by
  have hsum := sumIf_eq range criterion hsingle
  rw [chosenAddends_of_accepts haccepts hlength] at hsum
  refine ⟨hsum, fun hplain => ?_⟩
  have haddends : addends.items.map Value.asAddend = addends.items := by
    rw [List.map_congr_left fun w hw => Value.asAddend_of_ne_boolean (hplain w hw)]
    exact List.map_id' addends.items
  rw [hsum, haddends, sum_items hsingle]
  exact sum_items (v := .array _) hsingle

/-- Numbers, numeric text, other text, NaN and nothing, next to a range of as many kinds. -/
theorem sumIf_eq_sum_kinds :
    let range : Value := .array [.number 1, .text "7", .null, .boolean true, .text "east"]
    let addends : Value := .array [.number 1.5, .text " 2 ", .text "n/a", .nan, .null]
    (∀ v ∈ range.items, (Criterion.ofValue (.text "<>9")).accepts v = true) ∧
      sumIf range (.text "<>9") (some addends) = sum [addends] ∧ sum [addends] = .number 3.5 := by
  intro range addends
  have haccepts : ∀ v ∈ range.items, (Criterion.ofValue (.text "<>9")).accepts v = true := by
    decide +kernel
  have hlength : range.items.length = addends.items.length := rfl
  have hsingle : ∀ w ∈ addends.items, w.isArray = false := by decide
  have hplain : ∀ w ∈ addends.items, ∀ b, w ≠ .boolean b := by
    rintro w hw b rfl
    simp [addends, Value.items, Value.nan] at hw
  have htotal : total (countedNumbers [addends]) = 3.5 := by decide +kernel
  exact ⟨haccepts, (sumIf_eq_sum haccepts hlength hsingle).2 hplain, congrArg Value.number htotal⟩

/-- The truth value counts as one in the conditional sum, and not at all in the other. -/
theorem sumIf_ne_sum_boolean :
    let range : Value := .array [.number 1, .number 2]
    let addends : Value := .array [.boolean true, .number 2]
    (∀ v ∈ range.items, (Criterion.ofValue (.text ">0")).accepts v = true) ∧
      sumIf range (.text ">0") (some addends) = .number 3 ∧ sum [addends] = .number 2 := by
  intro range addends
  have haccepts : ∀ v ∈ range.items, (Criterion.ofValue (.text ">0")).accepts v = true := by
    decide +kernel
  have hlength : range.items.length = addends.items.length := rfl
  have hcounted : sumIf range (.text ">0") (some addends) =
      sum [.array [.number 1, .number 2]] := by
    rw [sumIf_eq range _ (by decide), chosenAddends_of_accepts haccepts hlength]
    rfl
  have htotals : total (countedNumbers [.array [.number 1, .number 2]]) = 3 ∧
      total (countedNumbers [addends]) = 2 := by decide +kernel
  exact ⟨haccepts, hcounted.trans (congrArg Value.number htotals.1),
    congrArg Value.number htotals.2⟩

end SheetBoard.Script
