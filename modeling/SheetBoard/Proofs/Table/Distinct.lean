import Mathlib.Data.List.Induction
import SheetBoard.Proofs.Number.Order
import SheetBoard.Table.Basic

/-! The different values of a column. A list of values is gone through from the left, and a value is
kept if it is not blank and no value before it is the same. What is kept is then sorted. -/

namespace SheetBoard

open Std

/-! ### First occurrences -/

section

variable {α : Type} (blank : α → Bool) (same : α → α → Bool)

/-- Puts a value behind those found so far, unless it is blank or the same as one of them. -/
def addDistinct (found : List α) (x : α) : List α :=
  if blank x || found.any (same · x) then found else found ++ [x]

/-- The values that are not blank and not the same as a value before them, in order. -/
def firstOccurrences (xs : List α) : List α :=
  (xs.zipIdx.filter fun p => !blank p.1 && !(xs.take p.2).any (same · p.1)).map Prod.fst

/-- What the search for distinct values relies on: being the same is passed on, and a value that is
the same as a filled one is filled. -/
structure TellsApart : Prop where
  trans : ∀ {a b c}, same a b = true → same b c = true → same a c = true
  filled : ∀ {a b}, same a b = true → blank b = false → blank a = false

variable {blank same}

theorem firstOccurrences_concat (xs : List α) (x : α) :
    firstOccurrences blank same (xs ++ [x]) = firstOccurrences blank same xs ++
      if blank x || xs.any (same · x) then [] else [x] := by
  have hbefore : ∀ p ∈ xs.zipIdx, (xs ++ [x]).take p.2 = xs.take p.2 := by
    intro p hp
    exact List.take_append_of_le_length (Nat.le_of_lt (List.snd_lt_of_mem_zipIdx hp))
  have hkept : xs.zipIdx.filter (fun p => !blank p.1 && !((xs ++ [x]).take p.2).any (same · p.1)) =
      xs.zipIdx.filter fun p => !blank p.1 && !(xs.take p.2).any (same · p.1) :=
    List.filter_congr fun p hp => by rw [hbefore p hp]
  rw [firstOccurrences, List.zipIdx_append, List.filter_append, List.map_append, hkept]
  congr 1
  cases hblank : blank x <;> cases hany : xs.any (same · x) <;> simp [hblank, hany]

theorem firstOccurrences_sublist (xs : List α) :
    (firstOccurrences blank same xs).Sublist xs := by
  have hsublist := (List.filter_sublist (l := xs.zipIdx)
    (p := fun p => !blank p.1 && !(xs.take p.2).any (same · p.1))).map Prod.fst
  rwa [List.zipIdx_map_fst] at hsublist

theorem not_blank_of_mem_firstOccurrences {xs : List α} {x : α}
    (h : x ∈ firstOccurrences blank same xs) : blank x = false := by
  obtain ⟨p, hp, rfl⟩ := List.mem_map.1 h
  have hkept := (List.mem_filter.1 hp).2
  simpa using (Bool.and_eq_true_iff.1 hkept).1

/-- No two of the values found are the same. -/
theorem pairwise_firstOccurrences (xs : List α) :
    (firstOccurrences blank same xs).Pairwise fun a b => same a b = false := by
  induction xs using List.reverseRecOn with
  | nil => exact .nil
  | append_singleton xs x ih =>
      rw [firstOccurrences_concat]
      split
      · rwa [List.append_nil]
      · rename_i hnew
        refine List.pairwise_append.2 ⟨ih, List.pairwise_singleton _ _, fun a ha b hb => ?_⟩
        obtain rfl := List.mem_singleton.1 hb
        have hmem := (firstOccurrences_sublist xs).subset ha
        simp only [Bool.or_eq_true, List.any_eq_true, not_or, not_exists, not_and] at hnew
        simpa using hnew.2 a hmem

/-- First occurrences are kept by a function that keeps which values are blank and which are the
same. -/
theorem firstOccurrences_map {β : Type} {blank' : β → Bool} {same' : β → β → Bool} {f : α → β}
    {xs : List α} (hblank : ∀ a ∈ xs, blank' (f a) = blank a)
    (hsame : ∀ a b, same' (f a) (f b) = same a b) :
    firstOccurrences blank' same' (xs.map f) = (firstOccurrences blank same xs).map f := by
  induction xs using List.reverseRecOn with
  | nil => rfl
  | append_singleton xs x ih =>
      have hany : (xs.map f).any (same' · (f x)) = xs.any (same · x) := by
        simp [List.any_map, Function.comp_def, hsame]
      rw [List.map_append, List.map_singleton, firstOccurrences_concat, firstOccurrences_concat,
        ih fun a ha => hblank a (List.mem_append_left _ ha), hany, hblank x (by simp),
        List.map_append]
      split <;> rfl

section

variable (h : TellsApart blank same)
include h

/-- A filled value is among those found, or the same as one of them. -/
theorem exists_mem_firstOccurrences {xs : List α} {x : α} (hx : x ∈ xs)
    (hfilled : blank x = false) :
    x ∈ firstOccurrences blank same xs ∨ ∃ y ∈ firstOccurrences blank same xs, same y x = true := by
  induction xs using List.reverseRecOn generalizing x with
  | nil => cases hx
  | append_singleton xs z ih =>
      rw [firstOccurrences_concat]
      rcases List.mem_append.1 hx with hmem | hlast
      · exact (ih hmem hfilled).imp (List.mem_append_left _)
          fun ⟨y, hy, hsame⟩ => ⟨y, List.mem_append_left _ hy, hsame⟩
      · obtain rfl := List.mem_singleton.1 hlast
        cases hany : xs.any (same · x) with
        | false => exact .inl (by simp [hfilled])
        | true =>
            obtain ⟨w, hw, hsame⟩ := List.any_eq_true.1 hany
            refine .inr ?_
            rcases ih hw (h.filled hsame hfilled) with hfound | ⟨y, hy, hyw⟩
            · exact ⟨w, List.mem_append_left _ hfound, hsame⟩
            · exact ⟨y, List.mem_append_left _ hy, h.trans hyw hsame⟩

/-- To compare a filled value with those found is to compare it with all before it. -/
theorem any_firstOccurrences (xs : List α) {x : α} (hfilled : blank x = false) :
    (firstOccurrences blank same xs).any (same · x) = xs.any (same · x) := by
  rw [Bool.eq_iff_iff, List.any_eq_true, List.any_eq_true]
  refine ⟨fun ⟨y, hy, hsame⟩ => ⟨y, (firstOccurrences_sublist xs).subset hy, hsame⟩, ?_⟩
  rintro ⟨w, hw, hsame⟩
  rcases exists_mem_firstOccurrences h hw (h.filled hsame hfilled) with hfound | ⟨y, hy, hyw⟩
  · exact ⟨w, hfound, hsame⟩
  · exact ⟨y, hy, h.trans hyw hsame⟩

theorem foldl_addDistinct (xs : List α) :
    xs.foldl (addDistinct blank same) [] = firstOccurrences blank same xs := by
  induction xs using List.reverseRecOn with
  | nil => rfl
  | append_singleton xs x ih =>
      rw [List.foldl_append, ih, firstOccurrences_concat, List.foldl_cons, List.foldl_nil,
        addDistinct]
      cases hblank : blank x with
      | true => simp
      | false =>
          rw [any_firstOccurrences h xs hblank]
          split <;> simp

end

end

/-! ### Sorting by a key -/

/-- A list is sorted by an order that agrees on it with the order of keys. -/
theorem pairwise_mergeSort_of_key {α β : Type} [Ord β] [TransOrd β] {order : α → α → Ordering}
    {key : α → β} {xs : List α}
    (h : ∀ a ∈ xs, ∀ b ∈ xs, order a b = compare (key a) (key b)) :
    (xs.mergeSort fun a b => (order a b).isLE).Pairwise fun a b => (order a b).isLE = true := by
  have hsame : xs.mergeSort (fun a b => (order a b).isLE) =
      xs.mergeSort fun a b => (compare (key a) (key b)).isLE := by
    have hmap := List.map_mergeSort (r := fun a b => (order a b).isLE)
      (s := fun a b => (compare (key a) (key b)).isLE) (f := id) (l := xs)
      fun a ha b hb => by rw [h a ha b hb]; rfl
    rwa [List.map_id, List.map_id] at hmap
  have hsorted : (xs.mergeSort fun a b => (compare (key a) (key b)).isLE).Pairwise
      fun a b => (compare (key a) (key b)).isLE = true := by
    refine List.pairwise_mergeSort (fun a b c => TransCmp.isLE_trans) (fun a b => ?_) xs
    cases hab : compare (key a) (key b) with
    | gt => simp [OrientedCmp.lt_of_gt hab]
    | _ => rfl
  rw [hsame]
  refine hsorted.imp_of_mem fun ha hb hle => ?_
  rw [h _ (List.mem_mergeSort.1 ha) _ (List.mem_mergeSort.1 hb)]
  exact hle

/-- What a value is sorted by: its kind, and then itself among those of its kind. -/
structure SortKey where
  rank : Nat
  truth : Bool := false
  number : Number.OrderKey := ⟨0, 0, 0⟩
  text : String := ""

namespace SortKey

instance : Ord SortKey where
  compare := compareLex (compareOn rank)
    (compareLex (compareOn truth) (compareLex (compareOn number) (compareOn text)))

instance : TransOrd SortKey := inferInstanceAs (TransCmp (compareLex _ _))

theorem compare_def (a b : SortKey) :
    compare a b = (compare a.rank b.rank).then ((compare a.truth b.truth).then
      ((compare a.number b.number).then (compare a.text b.text))) := rfl

end SortKey

/-! ### Cells -/

namespace Cell

def sortKey : Cell → SortKey
  | .empty => ⟨0, false, ⟨0, 0, 0⟩, ""⟩
  | .boolean b => ⟨1, b, ⟨0, 0, 0⟩, ""⟩
  | .number x => ⟨2, false, Number.orderKey x, ""⟩
  | .text s => ⟨3, false, ⟨0, 0, 0⟩, s⟩

/-- Cells that are not missing are ordered as their keys are. -/
theorem order_eq {a b : Cell} (ha : a.isMissing = false) (hb : b.isMissing = false) :
    a.order b = compare a.sortKey b.sortKey := by
  cases a with
  | empty => cases ha
  | boolean p =>
      cases b with
      | boolean q => simp [order, sortKey, SortKey.compare_def]
      | _ => rfl
  | number x =>
      cases b with
      | number y => simp [order, sortKey, SortKey.compare_def, Number.order?_eq ha hb]
      | _ => rfl
  | text s =>
      cases b with
      | text t => simp [order, sortKey, SortKey.compare_def]
      | _ => rfl

theorem same_self {c : Cell} (h : c.isMissing = false) : c.same c = true := by
  cases c with
  | number x => exact Number.beq_self h
  | _ => simp [same]

theorem same_symm {a b : Cell} (h : a.same b = true) : b.same a = true := by
  cases a with
  | empty => cases b <;> exact h
  | boolean p =>
      cases b with
      | boolean q => exact beq_iff_eq.2 (beq_iff_eq.1 h).symm
      | _ => cases h
  | number x =>
      cases b with
      | number y => exact Number.beq_symm h
      | _ => cases h
  | text s =>
      cases b with
      | text t => exact beq_iff_eq.2 (beq_iff_eq.1 h).symm
      | _ => cases h

theorem same_comm (a b : Cell) : a.same b = b.same a :=
  Bool.eq_iff_iff.2 ⟨same_symm, same_symm⟩

theorem same_trans {a b c : Cell} (hab : a.same b = true) (hbc : b.same c = true) :
    a.same c = true := by
  cases a with
  | empty =>
      cases b with
      | empty => exact hbc
      | _ => cases hab
  | boolean p =>
      cases b with
      | boolean q =>
          obtain rfl := beq_iff_eq.1 hab
          exact hbc
      | _ => cases hab
  | number x =>
      cases b with
      | number y =>
          cases c with
          | number z => exact Number.beq_trans hab hbc
          | _ => cases hbc
      | _ => cases hab
  | text s =>
      cases b with
      | text t =>
          obtain rfl := beq_iff_eq.1 hab
          exact hbc
      | _ => cases hab

theorem isMissing_of_same {a b : Cell} (h : a.same b = true) : a.isMissing = b.isMissing := by
  cases a with
  | empty =>
      cases b with
      | empty => rfl
      | _ => cases h
  | boolean p =>
      cases b with
      | boolean q => rfl
      | _ => cases h
  | number x =>
      cases b with
      | number y =>
          obtain ⟨hx, hy⟩ := Number.not_isNaN_of_beq h
          exact hx.trans hy.symm
      | _ => cases h
  | text s =>
      cases b with
      | text t => rfl
      | _ => cases h

theorem tellsApart : TellsApart isMissing fun a b => same b a where
  trans hab hbc := same_trans hbc hab
  filled hab hb := (isMissing_of_same hab).symm.trans hb

end Cell

namespace Table

theorem distinct_eq (cells : List Cell) :
    distinct cells = firstOccurrences Cell.isMissing (fun a b => b.same a) cells :=
  foldl_addDistinct Cell.tellsApart cells

/-- The cells of the column with the given letters; none if there is no such column. -/
def columnCells (t : Table) (letters : List Char) : List Cell :=
  ((t.schema.nameAt? letters).bind t.column?).getD []

theorem columnFrom_zero (t : Table) (letters : List Char) :
    t.columnFrom letters 0 = t.columnCells letters := by
  unfold columnFrom columnCells
  cases t.schema.nameAt? letters <;> rfl

/-- The values of a column, once each and sorted. -/
structure DistinctCells (cells values : List Cell) : Prop where
  unequal : values.Pairwise fun a b => a.same b = false
  sorted : values.Pairwise fun a b => (a.order b).isLE = true
  mem : ∀ v ∈ values, v ∈ cells ∧ v.isMissing = false
  complete : ∀ c ∈ cells, c.isMissing = false → ∃ v ∈ values, v.same c = true

theorem distinctCells_sortedValues (t : Table) (letters : List Char) :
    DistinctCells (t.columnCells letters) (t.sortedValues letters) := by
  have hvalues : t.sortedValues letters =
      (firstOccurrences Cell.isMissing (fun a b => b.same a) (t.columnCells letters)).mergeSort
        fun a b => (a.order b).isLE := by
    rw [sortedValues, distinct_eq, columnFrom_zero]
  have hmem : ∀ v ∈ firstOccurrences Cell.isMissing (fun a b => b.same a) (t.columnCells letters),
      v ∈ t.columnCells letters ∧ v.isMissing = false := fun v hv =>
    ⟨(firstOccurrences_sublist _).subset hv, not_blank_of_mem_firstOccurrences hv⟩
  rw [hvalues]
  refine ⟨?_, ?_, fun v hv => hmem v (List.mem_mergeSort.1 hv), fun c hc hfilled => ?_⟩
  · have hunequal : (firstOccurrences Cell.isMissing (fun a b => b.same a)
        (t.columnCells letters)).Pairwise fun a b => a.same b = false :=
      (pairwise_firstOccurrences _).imp fun {a b} h => (a.same_comm b).trans h
    exact hunequal.perm (List.mergeSort_perm _ _).symm fun {a b} h => (b.same_comm a).trans h
  · exact pairwise_mergeSort_of_key fun a ha b hb => Cell.order_eq (hmem a ha).2 (hmem b hb).2
  · rcases exists_mem_firstOccurrences Cell.tellsApart hc hfilled with hfound | ⟨v, hv, hsame⟩
    · exact ⟨c, List.mem_mergeSort.2 hfound, Cell.same_self hfilled⟩
    · exact ⟨v, List.mem_mergeSort.2 hv, Cell.same_symm hsame⟩

end Table

end SheetBoard
