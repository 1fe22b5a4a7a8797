import SheetBoard.Proofs.Script.Cutting
import SheetBoard.Proofs.Text.Lowering

/-! Searching for a text within another, whatever its case. Both are searched in lower case, and so
the place that is found is one of the lower-case form. It is a place of the text itself if nothing
before its end gets longer in lower case, and a text is found wherever it stands exactly if none of
its sigmas depends on what stands around it. -/

namespace SheetBoard.Script

open Library
open Text (Settled lower lowerBetween)

/-! ### Finding a part -/

/-- The part stands at place `i` of the text, counted from zero, and at none before it. -/
structure FirstAt (part cs : List Char) (i : Nat) : Prop where
  stands : part <+: cs.drop i
  first : ∀ j < i, ¬ part <+: cs.drop j

theorem firstAt_succ {part : List Char} {c : Char} {cs : List Char} {i : Nat}
    (hhead : ¬ part <+: c :: cs) : FirstAt part (c :: cs) (i + 1) ↔ FirstAt part cs i := by
  constructor
  · rintro ⟨hstands, hfirst⟩
    exact ⟨hstands, fun j hj => hfirst (j + 1) (Nat.succ_lt_succ hj)⟩
  · rintro ⟨hstands, hfirst⟩
    refine ⟨hstands, fun j hj => ?_⟩
    cases j with
    | zero => exact hhead
    | succ j => exact hfirst j (Nat.lt_of_succ_lt_succ hj)

theorem firstAt_of_findText {part cs : List Char} {i : Nat} (h : findText part cs = some i) :
    FirstAt part cs i := by
  induction cs generalizing i with
  | nil =>
      cases part with
      | nil =>
          obtain rfl : 0 = i := Option.some.inj h
          exact ⟨List.nil_prefix, fun j hj => absurd hj (Nat.not_lt_zero j)⟩
      | cons c part => cases h
  | cons c cs ih =>
      rw [findText] at h
      split at h
      · rename_i hhead
        obtain rfl : 0 = i := Option.some.inj h
        exact ⟨List.isPrefixOf_iff_prefix.1 hhead, fun j hj => absurd hj (Nat.not_lt_zero j)⟩
      · rename_i hhead
        obtain ⟨k, hk, rfl⟩ := Option.map_eq_some_iff.1 h
        exact (firstAt_succ fun hprefix => hhead (List.isPrefixOf_iff_prefix.2 hprefix)).2 (ih hk)

theorem findText_eq_none_iff {part cs : List Char} :
    findText part cs = none ↔ ¬ part <:+: cs := by
  induction cs with
  | nil => cases part <;> simp [findText]
  | cons c cs ih =>
      rw [findText, List.infix_cons_iff, not_or]
      split
      · rename_i hhead
        simp [List.isPrefixOf_iff_prefix.1 hhead]
      · rename_i hhead
        rw [Option.map_eq_none_iff, ih]
        exact ⟨fun h => ⟨fun hprefix => hhead (List.isPrefixOf_iff_prefix.2 hprefix), h⟩, And.right⟩

theorem FirstAt.le_length {part cs : List Char} {i : Nat} (h : FirstAt part cs i) :
    i ≤ cs.length := by
  by_contra hlarge
  have hend : cs.drop i = [] := List.drop_eq_nil_of_le (by omega)
  have hempty : part = [] := List.prefix_nil.1 (hend ▸ h.stands)
  exact h.first 0 (by omega) (hempty ▸ List.nil_prefix)

/-! ### The place in the text -/

section

variable {part cs : List Char} {i : Nat} (h : FirstAt (lower part) (lower cs) i)
include h

theorem FirstAt.end_le_length (hplain : 'İ' ∉ cs.take (i + part.length)) :
    i + part.length ≤ cs.length := by
  apply Text.le_length_of_le_length_lower _ hplain
  have hstart := h.le_length
  have hfits := h.stands.length_le
  rw [Text.length_lower part, List.length_drop] at hfits
  omega

/-- Where nothing in front gets longer, the characters in the place that is found are the part but
for their case exactly if they have the same lower-case form alone as within the text, and get as
long as the part does. -/
theorem FirstAt.lower_window (hplain : 'İ' ∉ cs.take i) {window : List Char}
    (hwindow : (cs.drop i).take part.length = window) :
    lower window = lower part ↔
      lowerBetween (cs.take i).reverse window (cs.drop (i + part.length)) = lower window ∧
        window.length + window.count 'İ' = part.length + part.count 'İ' := by
  have hstart := Text.le_length_of_le_length_lower h.le_length hplain
  have hcs : cs = cs.take i ++ window ++ cs.drop (i + part.length) := by
    rw [← hwindow, ← List.take_add, List.take_append_drop]
  have hfront : (lowerBetween [] (cs.take i) (window ++ cs.drop (i + part.length))).length = i := by
    rw [Text.length_lowerBetween, List.count_eq_zero_of_not_mem hplain, List.length_take]
    omega
  have hstands := h.stands
  rw [hcs, Text.lower_append, List.drop_left' hfront] at hstands
  have hlength := Text.length_lowerBetween (cs.take i).reverse window (cs.drop (i + part.length))
  generalize lowerBetween (cs.take i).reverse window (cs.drop (i + part.length)) = form at *
  have hform : form.length = (lower part).length → lower part = form := by
    intro hsame
    have hprefix := List.prefix_of_prefix_length_le hstands (List.prefix_append _ _) hsame.ge
    exact hprefix.eq_of_length hsame.symm
  rw [← Text.length_lower, ← Text.length_lower]
  constructor
  · intro hsame
    rw [hsame]
    exact ⟨(hform (by rw [hlength, ← Text.length_lower, hsame])).symm, rfl⟩
  · rintro ⟨halone, hsame⟩
    rw [← halone, hform (by rw [halone, hsame])]

theorem FirstAt.lower_window_of_settled (hpart : 'İ' ∉ part)
    (hplain : 'İ' ∉ cs.take (i + part.length))
    (hsettled : Settled ((cs.drop i).take part.length)) :
    lower ((cs.drop i).take part.length) = lower part := by
  have hend := h.end_le_length hplain
  rw [List.take_add, List.mem_append, not_or] at hplain
  rw [h.lower_window hplain.1 rfl, List.count_eq_zero_of_not_mem hpart,
    List.count_eq_zero_of_not_mem hplain.2, List.length_take, List.length_drop]
  exact ⟨hsettled.lowerBetween _ _, by omega⟩

end

/-! ### Calls -/

/-- Both functions find the text `f` within `w`, behind the first `i` characters of its lower-case
form. -/
structure FoundAt (ctx : Context) (f w : String) (i : Nat) : Prop where
  first : FirstAt (lower f.toList) (lower w.toList) i
  search : Builtin.apply ctx [.text f, .text w] .search = .ok (intValue (i + 1))
  searchIndex : Builtin.apply ctx [.text f, .text w] .searchIndex = .ok (intValue (i + 1))

/-- Neither function finds the text `f` within `w`, for its lower-case form is not there. -/
structure NotFound (ctx : Context) (f w : String) : Prop where
  absent : ¬ lower f.toList <:+: lower w.toList
  search : Builtin.apply ctx [.text f, .text w] .search = .ok .nan
  searchIndex : Builtin.apply ctx [.text f, .text w] .searchIndex = .ok (.number (-1))

theorem searchWith_texts (missing : Value) (f w : String) :
    searchWith missing [.text f, .text w] =
      ((findText (lower f.toList) (lower w.toList)).map fun i : Nat =>
        intValue (i + 1)).getD missing := by
  have hplace : searchPlace? (.text f) (.text w) 1 =
      (findText (lower f.toList) (lower w.toList)).map (· + 1) := by
    simp [searchPlace?, Value.asText]
  have hread : searchWith missing [.text f, .text w] =
      ((searchPlace? (.text f) (.text w) 1).map .ofNat).getD missing := rfl
  rw [hread, hplace, Option.map_map]
  rfl

section

variable (ctx : Context) {f w : String}

theorem foundAt_of_findText {i : Nat}
    (h : findText (lower f.toList) (lower w.toList) = some i) : FoundAt ctx f w i := by
  have hcalls := fun missing => searchWith_texts missing f w
  rw [h] at hcalls
  exact ⟨firstAt_of_findText h, congrArg Except.ok (hcalls .nan),
    congrArg Except.ok (hcalls (.number (-1)))⟩

theorem notFound_of_findText (h : findText (lower f.toList) (lower w.toList) = none) :
    NotFound ctx f w := by
  have hcalls := fun missing => searchWith_texts missing f w
  rw [h] at hcalls
  exact ⟨findText_eq_none_iff.1 h, congrArg Except.ok (hcalls .nan),
    congrArg Except.ok (hcalls (.number (-1)))⟩

variable (f w) in
theorem found_or_notFound : (∃ i, FoundAt ctx f w i) ∨ NotFound ctx f w := by
  cases hfind : findText (lower f.toList) (lower w.toList) with
  | none => exact .inr (notFound_of_findText ctx hfind)
  | some i => exact .inl ⟨i, foundAt_of_findText ctx hfind⟩

end

theorem FoundAt.isInfix {ctx : Context} {f w : String} {i : Nat} (h : FoundAt ctx f w i) :
    lower f.toList <:+: lower w.toList :=
  h.first.stands.isInfix.trans (List.drop_suffix i _).isInfix

theorem exists_foundAt_iff {ctx : Context} {f w : String} :
    (∃ i, FoundAt ctx f w i) ↔ lower f.toList <:+: lower w.toList := by
  refine ⟨fun ⟨_, h⟩ => h.isInfix, fun h => ?_⟩
  rcases found_or_notFound ctx f w with hfound | hnone
  · exact hfound
  · exact absurd h hnone.absent

/-- The text is found wherever it stands exactly if none of its sigmas depends on what stands
around it. -/
theorem found_within_iff_settled (ctx : Context) (f : String) :
    (∀ w : String, f.toList <:+: w.toList → ∃ i, FoundAt ctx f w i) ↔ Settled f.toList := by
  rw [Text.settled_iff_infix]
  constructor
  · intro h a b
    have hwithin := h (.ofList (a ++ f.toList ++ b))
    rw [exists_foundAt_iff, String.toList_ofList] at hwithin
    exact hwithin (List.infix_append a f.toList b)
  · rintro h w ⟨a, b, hw⟩
    rw [exists_foundAt_iff, ← hw]
    exact h a b

/-- The characters of `w` behind its first `i`, as many as `f` has. -/
def window (f w : String) (i : Nat) : String := .ofList ((w.toList.drop i).take f.length)

/-- What is cut out of `w` at the place where `f` is found. It is `f` but for the case if nothing up
to its end gets longer and it is settled, and in general exactly if it has the same lower-case form
alone as within `w` and gets as long as `f` does. -/
structure CutsOut (ctx : Context) (f w : String) (i : Nat) (t : String) : Prop where
  mid : Builtin.apply ctx [.text w, intValue (i + 1), intValue f.length] .mid = .ok (.text t)
  lower_eq : 'İ' ∉ f.toList → 'İ' ∉ w.toList.take (i + f.length) → Settled t.toList →
    lower t.toList = lower f.toList
  lower_eq_iff : lower t.toList = lower f.toList ↔
    lowerBetween (w.toList.take i).reverse t.toList (w.toList.drop (i + f.length)) =
        lower t.toList ∧
      t.length + t.toList.count 'İ' = f.length + f.toList.count 'İ'

theorem FoundAt.cutsOut {ctx : Context} {f w : String} {i : Nat} (h : FoundAt ctx f w i)
    (hw : w.length < 2 ^ 53) (hplain : 'İ' ∉ w.toList.take i) :
    CutsOut ctx f w i (window f w i) where
  mid := by
    have hplace : ((i : Int) + 1).toNat = i + 1 := by omega
    rw [apply_mid_intValue ctx hw, hplace]
    rfl
  lower_eq := by
    rw [window, ← String.length_toList, String.toList_ofList]
    exact h.first.lower_window_of_settled
  lower_eq_iff := by
    rw [window, ← String.length_toList, ← String.length_toList, String.toList_ofList]
    exact h.first.lower_window hplain rfl

/-- A text is found where its lower-case form first stands within that of the other, and where
nothing in front gets longer this is its place in the other text. A text is found in every text that
contains it exactly if it is settled. -/
theorem search_places (ctx : Context) (f : String) :
    Builtin.apply ctx [.text f] .length = .ok (intValue f.length) ∧
    (∀ w, (∃ i, FoundAt ctx f w i) ∨ NotFound ctx f w) ∧
    (∀ w i, FoundAt ctx f w i → w.length < 2 ^ 53 → 'İ' ∉ w.toList.take i →
      CutsOut ctx f w i (window f w i)) ∧
    ((∀ w : String, f.toList <:+: w.toList → ∃ i, FoundAt ctx f w i) ↔ Settled f.toList) :=
  ⟨apply_length_text ctx f, fun w => found_or_notFound ctx f w,
    fun _ _ h hw hplain => h.cutsOut hw hplain, found_within_iff_settled ctx f⟩

/-- Capitals and a final sigma on both sides; the character that gets longer stands behind them. -/
theorem search_places_capitals :
    let ctx : Context := ⟨none, ⟨2024, 3, 15⟩⟩
    let f := "δΟΣ α"
    let w := "ΟΔΟΣ Α, İ"
    FoundAt ctx f w 1 ∧ w.length < 2 ^ 53 ∧ 'İ' ∉ w.toList.take 1 ∧ CutsOut ctx f w 1 "ΔΟΣ Α" ∧
      lower "ΔΟΣ Α".toList = lower f.toList ∧
      Settled f.toList ∧ f.toList <:+: "«δΟΣ α»".toList ∧ ∃ i, FoundAt ctx f "«δΟΣ α»" i := by
  intro ctx f w
  have hfound : FoundAt ctx f w 1 := foundAt_of_findText ctx (by decide +kernel)
  have hw : w.length < 2 ^ 53 := by decide
  have hplain : 'İ' ∉ w.toList.take 1 := by decide
  have hsettled : Settled f.toList := by decide +kernel
  have hwithin : f.toList <:+: "«δΟΣ α»".toList := ⟨['«'], ['»'], by decide⟩
  obtain ⟨-, -, hcuts, hfinds⟩ := search_places ctx f
  have hwindow : window f w 1 = "ΔΟΣ Α" := by decide
  have hcut : CutsOut ctx f w 1 "ΔΟΣ Α" := hwindow ▸ hcuts w 1 hfound hw hplain
  have hsame := hcut.lower_eq (by decide) (by decide) (by decide +kernel)
  exact ⟨hfound, hw, hplain, hcut, hsame, hsettled, hwithin, hfinds.2 hsettled _ hwithin⟩

/-- The place is one of the lower-case form: behind a character that gets longer nothing is left to
cut out. And a text may be lost where it stands, for a letter in front makes its sigma final. -/
theorem search_place_shifted :
    let ctx : Context := ⟨none, ⟨2024, 3, 15⟩⟩
    FoundAt ctx "a" "İa" 2 ∧
      Builtin.apply ctx [.text "İa", intValue 3, intValue 1] .mid = .ok (.text "") ∧
      lower "".toList ≠ lower "a".toList ∧
      "Σ".toList <:+: "aΣ".toList ∧ NotFound ctx "Σ" "aΣ" := by
  intro ctx
  exact ⟨foundAt_of_findText ctx (by decide +kernel), apply_mid_intValue ctx (by decide) 1 3,
    by decide +kernel, ⟨['a'], [], rfl⟩, notFound_of_findText ctx (by decide +kernel)⟩

end SheetBoard.Script
