import SheetBoard.Proofs.Number.Integer
import SheetBoard.Proofs.Script.Rowwise

/-! The functions that cut a text. The first characters, the last ones and those from a place on fit
together at every boundary, and an array of any depth is cut item by item. -/

namespace SheetBoard.Script

/-! ### Items in the same places -/

/-- The second value has the shape of the first, and their single values are related in each
place. -/
inductive Itemwise (R : Value → Value → Prop) : Value → Value → Prop where
  | single {v w : Value} (hv : v.isArray = false) (h : R v w) : Itemwise R v w
  | array {vs ws : List Value} (h : List.Forall₂ (Itemwise R) vs ws) :
      Itemwise R (.array vs) (.array ws)

mutual

theorem itemwise_map {R : Value → Value → Prop} {f : Value → Value}
    (hf : ∀ v, v.isArray = false → R v (f v)) (v : Value) : Itemwise R v (v.map f) := by
  cases v with
  | array items => exact .array (forall₂_mapItems hf items)
  | _ => exact .single rfl (hf _ rfl)

theorem forall₂_mapItems {R : Value → Value → Prop} {f : Value → Value}
    (hf : ∀ v, v.isArray = false → R v (f v)) (items : List Value) :
    List.Forall₂ (Itemwise R) items (Value.mapItems f items) := by
  cases items with
  | nil => exact .nil
  | cons v items => exact .cons (itemwise_map hf v) (forall₂_mapItems hf items)

end

/-! ### Counts of characters -/

open Library

/-- An integer as an argument. -/
def intValue (n : Int) : Value := .number (Float.ofInt n)

theorem wholeArgument_intValue {args : List Value} {i : Nat} {n : Int}
    (h : args[i]? = some (intValue n)) (default : Int) :
    wholeArgument args i default = Number.toInt (Float.ofInt n) := by
  have hread : wholeArgument args i default =
      if (Float.ofInt n).isNaN then default else Number.toInt (Float.ofInt n) := by
    rw [wholeArgument, h]
    rfl
  rw [hread, Number.isNaN_ofInt]
  rfl

section

variable {args : List Value} {i : Nat} {n : Int} (h : args[i]? = some (intValue n)) (default : Int)
include h

/-- A count that is not exact is larger than the length of any text. -/
theorem countArgument_cases {k : Nat} (hk : k ≤ 2 ^ 53) : countArgument args i default = n.toNat ∨
    k ≤ countArgument args i default ∧ k ≤ n.toNat := by
  rw [countArgument, wholeArgument_intValue h]
  by_cases hn : n ≤ 2 ^ 53
  · exact .inl (Number.toNat_toInt_ofInt hn)
  · have hlarge := Number.two_pow_le_toInt_ofInt (n := n) (by omega)
    right
    omega

variable {cs : List Char} (hcs : cs.length < 2 ^ 53)
include hcs

theorem take_countArgument : cs.take (countArgument args i default) = cs.take n.toNat := by
  rcases countArgument_cases h default (Nat.le_of_lt hcs) with hcount | ⟨hcount, hn⟩
  · rw [hcount]
  · rw [List.take_of_length_le hcount, List.take_of_length_le hn]

theorem takeEnd_countArgument : takeEnd (countArgument args i default) cs = takeEnd n.toNat cs := by
  rcases countArgument_cases h default (Nat.le_of_lt hcs) with hcount | ⟨hcount, hn⟩
  · rw [hcount]
  · rw [takeEnd, takeEnd, Nat.sub_eq_zero_of_le hcount, Nat.sub_eq_zero_of_le hn]

theorem takeFrom_countArgument (place : Nat) :
    takeFrom place (countArgument args i default) cs = takeFrom place n.toNat cs := by
  cases place with
  | zero => rfl
  | succ place => exact take_countArgument h default (by rw [List.length_drop]; omega)

theorem takeFrom_placeArgument (count : Nat) :
    takeFrom (countArgument args i default) count cs = takeFrom n.toNat count cs := by
  rcases countArgument_cases h default (Nat.succ_le_of_lt hcs) with hcount | ⟨hcount, hn⟩
  · rw [hcount]
  · obtain ⟨p, hp⟩ := Nat.exists_eq_add_of_le' hcount
    obtain ⟨q, hq⟩ := Nat.exists_eq_add_of_le' hn
    rw [hp, hq, Nat.add_succ, Nat.add_succ, takeFrom, takeFrom,
      List.drop_of_length_le (Nat.le_add_left _ _), List.drop_of_length_le (Nat.le_add_left _ _)]

end

/-! ### Cut texts -/

/-- The cuts of a text behind its first `n` characters: these and the ones after them are the whole
text, and each end is also cut by its place. -/
structure CutsAt (ctx : Context) (s : String) (n : Int) (front back last : String) : Prop where
  whole : front ++ back = s
  length : (front.length : Int) = n
  left : Builtin.apply ctx [.text s, intValue n] .left = .ok (.text front)
  leftPlace : Builtin.apply ctx [.text s, intValue 1, intValue n] .mid = .ok (.text front)
  rest : Builtin.apply ctx [.text s, intValue (s.length - n)] .right = .ok (.text back)
  restPlace : Builtin.apply ctx [.text s, intValue (n + 1), intValue s.length] .mid =
    .ok (.text back)
  right : Builtin.apply ctx [.text s, intValue n] .right = .ok (.text last)
  rightPlace : Builtin.apply ctx [.text s, intValue (s.length - n + 1), intValue n] .mid =
    .ok (.text last)

section

variable (ctx : Context) (s : String)

theorem apply_length_text :
    Builtin.apply ctx [.text s] .length = .ok (intValue s.length) := by
  rw [← String.length_toList]
  rfl

variable {s} (hs : s.length < 2 ^ 53) (n : Int)
include hs

theorem apply_mid_intValue (place : Int) :
    Builtin.apply ctx [.text s, intValue place, intValue n] .mid =
      .ok (.text (.ofList (takeFrom place.toNat n.toNat s.toList))) := by
  have hargs : ∀ args : List Value, args = [.text s, intValue place, intValue n] →
      args[1]? = some (intValue place) ∧ args[2]? = some (intValue n) := by
    rintro args rfl
    exact ⟨rfl, rfl⟩
  obtain ⟨hplace, hcount⟩ := hargs _ rfl
  have hcs : s.toList.length < 2 ^ 53 := String.length_toList ▸ hs
  rw [← takeFrom_placeArgument hplace 1 hcs, ← takeFrom_countArgument hcount 0 hcs]
  rfl

theorem apply_left_intValue : Builtin.apply ctx [.text s, intValue n] .left =
    .ok (.text (.ofList (s.toList.take n.toNat))) := by
  have hcount : [.text s, intValue n][1]? = some (intValue n) := rfl
  rw [← take_countArgument hcount 1 (String.length_toList ▸ hs)]
  rfl

theorem apply_right_intValue : Builtin.apply ctx [.text s, intValue n] .right =
    .ok (.text (.ofList (takeEnd n.toNat s.toList))) := by
  have hcount : [.text s, intValue n][1]? = some (intValue n) := rfl
  rw [← takeEnd_countArgument hcount 1 (String.length_toList ▸ hs)]
  rfl

theorem exists_cutsAt (hlow : 0 ≤ n) (hhigh : n ≤ s.length) :
    ∃ front back last, CutsAt ctx s n front back last := by
  obtain ⟨k, rfl⟩ := Int.eq_ofNat_of_zero_le hlow
  have hlength := String.length_toList (s := s)
  have hk : k ≤ s.toList.length := by omega
  refine ⟨.ofList (s.toList.take k), .ofList (s.toList.drop k),
    .ofList (s.toList.drop (s.toList.length - k)), ?_, ?_, apply_left_intValue ctx hs k, ?_, ?_, ?_,
    apply_right_intValue ctx hs k, ?_⟩
  · rw [← String.ofList_append, List.take_append_drop, String.ofList_toList]
  · rw [String.length_ofList, List.length_take, Nat.min_eq_left hk]
  · rw [apply_mid_intValue ctx hs]
    rfl
  · have hrest : s.toList.length - ((s.length : Int) - k).toNat = k := by omega
    rw [apply_right_intValue ctx hs, takeEnd, hrest]
  · have hplace : ((k : Int) + 1).toNat = k + 1 := by omega
    have hall : (s.toList.drop k).length ≤ ((s.length : Int)).toNat := by
      rw [List.length_drop]
      omega
    rw [apply_mid_intValue ctx hs, hplace, takeFrom,
      List.take_of_length_le hall]
  · have hplace : ((s.length : Int) - k + 1).toNat = s.toList.length - k + 1 := by omega
    have hall : (s.toList.drop (s.toList.length - k)).length ≤ (k : Int).toNat := by
      rw [List.length_drop]
      omega
    rw [apply_mid_intValue ctx hs, hplace, takeFrom,
      List.take_of_length_le hall]

end

/-- The functions that cut a text go through an array of any depth. -/
theorem itemwise_cut (ctx : Context) {f : Builtin} (hf : f ∈ [Builtin.left, .right, .mid])
    (v : Value) (args : List Value) : ∃ w, f.apply ctx (v :: args) = .ok w ∧
      Itemwise (fun a b => f.apply ctx (a :: args) = .ok b) v w := by
  -- The cut itself depends on the other arguments only.
  obtain ⟨cut, hcut⟩ : ∃ cut : Value → Value, ∀ a, f.apply ctx (a :: args) = .ok (a.map cut) := by
    simp only [List.mem_cons, List.not_mem_nil, or_false] at hf
    let count (i : Nat) (default : Int) : Nat := countArgument (.null :: args) i default
    rcases hf with rfl | rfl | rfl
    · exact ⟨fun a => .text (.ofList (a.asText.take (count 1 1))), fun a => rfl⟩
    · exact ⟨fun a => .text (.ofList (takeEnd (count 1 1) a.asText)), fun a => rfl⟩
    · exact ⟨fun a => .text (.ofList (takeFrom (count 1 1) (count 2 0) a.asText)), fun a => rfl⟩
  refine ⟨_, hcut v, itemwise_map (fun a ha => ?_) v⟩
  rw [hcut, Value.map_single ha]

/-- At every place of a text the first characters and the remaining last ones, or those from the
next place on, are the whole text, and both ends are also cut by their places. A count past the end
gives the whole text, and a negative one nothing. Arrays of any depth are cut item by item. -/
theorem cuts_fit (ctx : Context) {s : String} (hs : s.length < 2 ^ 53) (n : Int) :
    Builtin.apply ctx [.text s] .length = .ok (intValue s.length) ∧
    (0 ≤ n → n ≤ s.length → ∃ front back last, CutsAt ctx s n front back last) ∧
    (s.length < n →
      Builtin.apply ctx [.text s, intValue n] .left = .ok (.text s) ∧
        Builtin.apply ctx [.text s, intValue n] .right = .ok (.text s)) ∧
    (n < 0 →
      Builtin.apply ctx [.text s, intValue n] .left = .ok (.text "") ∧
        Builtin.apply ctx [.text s, intValue n] .right = .ok (.text "")) ∧
    ∀ f ∈ [Builtin.left, .right, .mid], ∀ v args, ∃ w, f.apply ctx (v :: args) = .ok w ∧
      Itemwise (fun a b => f.apply ctx (a :: args) = .ok b) v w := by
  have hlength := String.length_toList (s := s)
  refine ⟨apply_length_text ctx s, exists_cutsAt ctx hs n, fun hlarge => ?_, fun hneg => ?_,
    fun f hf v args => itemwise_cut ctx hf v args⟩
  · have hall : s.toList.length ≤ n.toNat := by omega
    rw [apply_left_intValue ctx hs, apply_right_intValue ctx hs, takeEnd,
      List.take_of_length_le hall, Nat.sub_eq_zero_of_le hall, List.drop_zero,
      String.ofList_toList]
    exact ⟨rfl, rfl⟩
  · rw [apply_left_intValue ctx hs, apply_right_intValue ctx hs, takeEnd,
      Int.toNat_of_nonpos (Int.le_of_lt hneg), Nat.sub_zero, List.drop_length]
    exact ⟨rfl, rfl⟩

/-- A text with characters of several bytes, counts past every float that is exact, and an array
within an array. -/
theorem cuts_fit_accents :
    let ctx : Context := ⟨none, ⟨2024, 3, 15⟩⟩
    let s := "héllo€"
    let v : Value := .array [.text s, .array [.number 12.5, .null]]
    s.length < 2 ^ 53 ∧ (∃ front back last, CutsAt ctx s 2 front back last) ∧
      Builtin.apply ctx [.text s, intValue (10 ^ 200)] .right = .ok (.text s) ∧
      Builtin.apply ctx [.text s, intValue (-(10 ^ 200))] .left = .ok (.text "") ∧
      ∃ w, Builtin.apply ctx [v, intValue 2] .left = .ok w ∧
        Itemwise (fun a b => Builtin.apply ctx [a, intValue 2] .left = .ok b) v w := by
  intro ctx s v
  have hs : s.length < 2 ^ 53 := by decide
  have hlarge : (s.length : Int) < 10 ^ 200 := by decide
  obtain ⟨-, hcuts, -, -, hitems⟩ := cuts_fit ctx hs 2
  exact ⟨hs, hcuts (by decide) (by decide), ((cuts_fit ctx hs (10 ^ 200)).2.2.1 hlarge).2,
    ((cuts_fit ctx hs (-(10 ^ 200))).2.2.2.1 (by decide)).1, hitems .left (by decide) v [intValue 2]⟩

end SheetBoard.Script
