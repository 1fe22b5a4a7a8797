import SheetBoard.Proofs.Condition.Counting

/-! The six comparisons with one operand divide a range. A value either cannot be compared with the
operand, and then it is only unequal to it, or it is less, equal or greater. -/

namespace SheetBoard

open SheetBoard.Script (Value)

/-! ### The order of a value and an operand -/

/-- What a comparison says of two values in the given order. If there is none, they are only
unequal. -/
def Comparison.decides (op : Comparison) : Option Ordering → Bool
  | some o => op.holds o
  | none => op == .notEqual

namespace Operand

/-- The order of a value and a number or a text, if the two can be compared. Every number is less
than NaN. -/
def order? (operand : Operand) (v : Value) : Option Ordering :=
  match operand with
  | .number x => v.toFloat?.bind fun y =>
    if y.isNaN then none else some ((Number.order? y x).getD .lt)
  | .boolean _ => none
  | .text s =>
    if v.holdsNothing then none
    else some (Ord.compare (String.ofList (Text.lower v.asText))
      (String.ofList (Text.lower s.toList)))

theorem order?_number {v : Value} {y : Float} (hv : v.toFloat? = some y) (x : Float) :
    (Operand.number x).order? v =
      if y.isNaN then none else some ((Number.order? y x).getD .lt) := by
  simp only [order?, hv, Option.bind_some]

theorem compare_eq_decides {operand : Operand} (h : ∀ b, operand ≠ .boolean b) (op : Comparison)
    (v : Value) : operand.compare op v = op.decides (operand.order? v) := by
  cases operand with
  | number x =>
      cases hv : v.toFloat? with
      | none => simp [compare, order?, hv, Comparison.decides]
      | some y =>
          have hcompare : (Operand.number x).compare op v =
              if y.isNaN then op == .notEqual else op.holds ((Number.order? y x).getD .lt) := by
            simp only [compare, hv]
          rw [hcompare, order?_number hv, apply_ite op.decides]
          rfl
  | boolean b => exact absurd rfl (h b)
  | text s => cases hv : v.holdsNothing <;> simp [compare, order?, hv, Comparison.decides]

theorem isSome_order?_number (x : Float) (v : Value) :
    ((Operand.number x).order? v).isSome = v.toFloat?.any (!·.isNaN) := by
  cases hv : v.toFloat? with
  | none => simp [order?, hv]
  | some y =>
      rw [order?_number hv, Option.any_some]
      cases y.isNaN <;> rfl

theorem isSome_order?_text (s : String) (v : Value) :
    ((Operand.text s).order? v).isSome = !v.holdsNothing := by
  cases hv : v.holdsNothing <;> simp [order?, hv]

/-- The operand of a text that is no truth word. -/
theorem ofText_eq {cs : List Char}
    (htrue : Text.equalIgnoringCase (.ofList (Text.trim cs)) "true" = false)
    (hfalse : Text.equalIgnoringCase (.ofList (Text.trim cs)) "false" = false) :
    ofText cs = ((Number.read? (Text.trim cs)).map Operand.number).getD
      (.text (.ofList (Text.trim cs))) := by
  cases hread : Number.read? (Text.trim cs) <;> simp [ofText, htrue, hfalse, hread]

end Operand

/-! ### Counting orders -/

/-- A list of orders is divided by what the comparisons say of them. -/
theorem Comparison.countP_decides (os : List (Option Ordering)) :
    os.countP notEqual.decides + os.countP equal.decides = os.length ∧
      os.countP lessEqual.decides = os.countP less.decides + os.countP equal.decides ∧
      os.countP greaterEqual.decides = os.countP greater.decides + os.countP equal.decides ∧
      os.countP less.decides + os.countP equal.decides + os.countP greater.decides =
        os.countP Option.isSome := by
  induction os with
  | nil => simp
  | cons o os ih =>
      obtain ⟨hne, hle, hge, hall⟩ := ih
      simp only [List.countP_cons, List.length_cons]
      rcases o with _ | _ | _ | _ <;> simp [decides, holds] <;> omega

namespace Script

/-- The number of values of a range that meet a criterion. -/
def matchCount (range criterion : Value) : Nat :=
  range.items.countP (Criterion.ofValue criterion).accepts

section

variable {x : String} (hline : '\n' ∉ x.toList)
  (hsign : x.toList.head?.any Criterion.isOperatorChar = false)
  (htrue : Text.equalIgnoringCase (.ofList (Text.trim x.toList)) "true" = false)
  (hfalse : Text.equalIgnoringCase (.ofList (Text.trim x.toList)) "false" = false)
include hline hsign htrue hfalse

/-- A comparison counts the orders that it decides. -/
theorem matchCount_comparison (range : Value) {spelling : String} {op : Comparison}
    (hop : Comparison.ofText? spelling.toList = some op) :
    matchCount range (.text (spelling ++ x)) =
      (range.items.map (Operand.ofText x.toList).order?).countP op.decides := by
  have hoperand : ∀ b, Operand.ofText x.toList ≠ .boolean b := by
    rw [Operand.ofText_eq htrue hfalse]
    cases Number.read? (Text.trim x.toList) <;> simp
  have hcriterion : Criterion.ofValue (.text (spelling ++ x)) =
      .compares op (.ofText x.toList) := by
    rw [← Criterion.ofText_comparison hop hline hsign, ← String.toList_append]
    rfl
  have haccepts : (Criterion.compares op (.ofText x.toList)).accepts =
      op.decides ∘ (Operand.ofText x.toList).order? := by
    funext v
    simp only [Criterion.accepts, Function.comp_apply, Operand.compare_eq_decides hoperand]
  rw [matchCount, hcriterion, haccepts, List.countP_map]

/-- The comparisons with an operand divide a range: the values that are not equal to it are all
others, those at most as large are the lesser and the equal ones, those at least as large the
greater and the equal ones. The lesser, the equal and the greater ones are those that can be
compared with it: with a number, the values that read as numbers other than NaN, and with a text,
the values that hold something. -/
theorem countIf_comparisons (range : Value) :
    let equal := matchCount range (.text ("=" ++ x))
    let less := matchCount range (.text ("<" ++ x))
    let greater := matchCount range (.text (">" ++ x))
    (Library.countIf range (.text ("=" ++ x)) = .ofNat equal ∧
      Library.countIf range (.text ("<" ++ x)) = .ofNat less ∧
      Library.countIf range (.text (">" ++ x)) = .ofNat greater) ∧
    Library.countIf range (.text ("!=" ++ x)) = .ofNat (range.items.length - equal) ∧
    Library.countIf range (.text ("<=" ++ x)) = .ofNat (less + equal) ∧
    Library.countIf range (.text (">=" ++ x)) = .ofNat (greater + equal) ∧
    (∀ n, Number.read? (Text.trim x.toList) = some n →
      less + equal + greater = range.items.countP fun v => v.toFloat?.any (!·.isNaN)) ∧
    (Number.read? (Text.trim x.toList) = none →
      less + equal + greater = range.items.countP (!·.holdsNothing)) := by
  intro equal less greater
  have hcount : ∀ (spelling : String) {op : Comparison},
      Comparison.ofText? spelling.toList = some op → matchCount range (.text (spelling ++ x)) =
        (range.items.map (Operand.ofText x.toList).order?).countP op.decides :=
    fun _ _ hop => matchCount_comparison hline hsign htrue hfalse range hop
  have hequal := hcount "=" rfl
  have hless := hcount "<" rfl
  have hgreater := hcount ">" rfl
  obtain ⟨hne, hle, hge, hall⟩ :=
    Comparison.countP_decides (range.items.map (Operand.ofText x.toList).order?)
  rw [← hcount "!=" rfl, ← hequal, List.length_map] at hne
  rw [← hcount "<=" rfl, ← hless, ← hequal] at hle
  rw [← hcount ">=" rfl, ← hgreater, ← hequal] at hge
  rw [← hless, ← hequal, ← hgreater, List.countP_map, Operand.ofText_eq htrue hfalse] at hall
  refine ⟨⟨rfl, rfl, rfl⟩, congrArg Value.ofNat (Nat.eq_sub_of_add_eq hne),
    congrArg Value.ofNat hle, congrArg Value.ofNat hge, fun n hread => ?_, fun hread => ?_⟩
  · rw [hread] at hall
    exact hall.trans (List.countP_congr fun v _ => by
      simp [Operand.isSome_order?_number])
  · rw [hread] at hall
    exact hall.trans (List.countP_congr fun v _ => by
      simp [Operand.isSome_order?_text])

end

/-- An operand with blanks around it, and one that is not a number. -/
theorem countIf_comparisons_mixed :
    let range : Value := .array [.number 5, .text " 6 ", .boolean true, .nan, .null, .text "east",
      .text "", .text "WEST"]
    '\n' ∉ " 6 ".toList ∧ '\n' ∉ "East".toList ∧
      Library.countIf range (.text ("!=" ++ " 6 ")) = .ofNat 7 ∧
      Library.countIf range (.text ("<=" ++ " 6 ")) = .ofNat 3 ∧
      Library.countIf range (.text (">=" ++ "East")) = .ofNat 3 := by
  intro range
  have hsix : '\n' ∉ " 6 ".toList := by decide
  have heast : '\n' ∉ "East".toList := by decide
  obtain ⟨-, hother, hatMost, -⟩ := countIf_comparisons hsix (by decide) (by decide +kernel)
    (by decide +kernel) range
  obtain ⟨-, -, -, hatLeast, -⟩ := countIf_comparisons heast (by decide) (by decide +kernel)
    (by decide +kernel) range
  have hcounts : matchCount range (.text ("=" ++ " 6 ")) = 1 ∧
      matchCount range (.text ("<" ++ " 6 ")) = 2 ∧
      matchCount range (.text ("=" ++ "East")) = 1 ∧
      matchCount range (.text (">" ++ "East")) = 2 := by decide +kernel
  rw [hcounts.1] at hother
  rw [hcounts.1, hcounts.2.1] at hatMost
  rw [hcounts.2.2.1, hcounts.2.2.2] at hatLeast
  exact ⟨hsix, heast, hother, hatMost, hatLeast⟩

end Script

end SheetBoard
