import Mathlib.Data.Finset.Card
import Mathlib.Data.Finset.Range
import Mathlib.Order.Interval.Finset.Nat
import SheetBoard.Script.Library.Range

/-! Counting by several criteria. The first range sets how many places are looked at, but a place
past the end of any range counts for nothing, so that the count depends only on which ranges are
paired with which criteria. -/

namespace SheetBoard.Script

open Library

/-! ### Pairs of a range and a criterion -/

/-- The arguments of a call: every range with its criterion behind it. -/
def pairArguments (pairs : List (Value × Value)) : List Value :=
  pairs.flatMap fun p => [p.1, p.2]

theorem length_pairArguments (pairs : List (Value × Value)) :
    (pairArguments pairs).length = 2 * pairs.length := by
  induction pairs with
  | nil => rfl
  | cons p pairs ih =>
      have hcons : pairArguments (p :: pairs) = p.1 :: p.2 :: pairArguments pairs := rfl
      rw [hcons, List.length_cons, List.length_cons, List.length_cons, ih]
      omega

theorem criterionPairs_pairArguments (pairs : List (Value × Value)) :
    criterionPairs (pairArguments pairs) =
      .ok (pairs.map fun p => (p.1.items, .ofValue p.2)) := by
  induction pairs with
  | nil => rfl
  | cons p pairs ih =>
      have hcons : pairArguments (p :: pairs) = p.1 :: p.2 :: pairArguments pairs := rfl
      rw [hcons, criterionPairs, ih]
      rfl

/-! ### Places -/

/-- Every range has a value in the place, and the value meets the range's criterion. -/
def Meets (pairs : List (Value × Value)) (i : Nat) : Prop :=
  ∀ p ∈ pairs, ∃ v, p.1.items[i]? = some v ∧ (Criterion.ofValue p.2).accepts v = true

theorem meets_iff_all {pairs : List (Value × Value)} {i : Nat} :
    Meets pairs i ↔
      (pairs.all fun p => p.1.items[i]?.any (Criterion.ofValue p.2).accepts) = true := by
  simp [Meets, Option.any_eq_true]

instance (pairs : List (Value × Value)) : DecidablePred (Meets pairs) :=
  fun _ => decidable_of_iff _ meets_iff_all.symm

theorem Meets.lt_length {pairs : List (Value × Value)} {i : Nat} (h : Meets pairs i)
    {p : Value × Value} (hp : p ∈ pairs) : i < p.1.items.length := by
  obtain ⟨v, hv, -⟩ := h p hp
  exact (List.getElem?_eq_some_iff.1 hv).1

theorem Meets.mono {pairs others : List (Value × Value)} {i : Nat} (h : Meets others i)
    (hsubset : pairs ⊆ others) : Meets pairs i :=
  fun p hp => h p (hsubset hp)

/-- The length of the shortest range. -/
def shortest (pairs : List (Value × Value)) : Nat :=
  (pairs.map (·.1.items.length)).min?.getD 0

/-- The places below the end of the shortest range at which every range meets its criterion. -/
def meetingPlaces (pairs : List (Value × Value)) : Finset Nat :=
  (Finset.range (shortest pairs)).filter (Meets pairs)

theorem exists_length_eq_shortest {pairs : List (Value × Value)} (hne : pairs ≠ []) :
    ∃ p ∈ pairs, p.1.items.length = shortest pairs := by
  have hlengths : pairs.map (·.1.items.length) ≠ [] := by simpa using hne
  obtain ⟨n, hn⟩ := Option.ne_none_iff_exists'.1 (mt List.min?_eq_none_iff.1 hlengths)
  obtain ⟨p, hp, hlength⟩ := List.mem_map.1 (List.min?_mem hn)
  exact ⟨p, hp, by rw [hlength, shortest, hn, Option.getD_some]⟩

theorem mem_meetingPlaces {pairs : List (Value × Value)} (hne : pairs ≠ []) {i : Nat} :
    i ∈ meetingPlaces pairs ↔ Meets pairs i := by
  rw [meetingPlaces, Finset.mem_filter, Finset.mem_range, and_iff_right_iff_imp]
  intro h
  obtain ⟨p, hp, hlength⟩ := exists_length_eq_shortest hne
  exact hlength ▸ h.lt_length hp

theorem ne_nil_of_subset {α : Type} {xs ys : List α} (hne : xs ≠ []) (hsubset : xs ⊆ ys) :
    ys ≠ [] := by
  rintro rfl
  exact hne (List.eq_nil_of_subset_nil hsubset)

/-- A pair more leaves fewer places, or as many. -/
theorem meetingPlaces_subset {pairs others : List (Value × Value)} (hne : pairs ≠ [])
    (hsubset : pairs ⊆ others) : meetingPlaces others ⊆ meetingPlaces pairs := by
  intro i hi
  rw [mem_meetingPlaces (ne_nil_of_subset hne hsubset)] at hi
  rw [mem_meetingPlaces hne]
  exact hi.mono hsubset

/-! ### The count -/

theorem countPlaces_eq_card {pairs : List (Value × Value)} (hne : pairs ≠ []) :
    countPlaces (pairs.map fun p => (p.1.items, .ofValue p.2)) = (meetingPlaces pairs).card := by
  obtain ⟨p, rest, rfl⟩ := List.exists_cons_of_ne_nil hne
  -- the places up to the end of the first range, of which those past another range drop out
  have hplaces : (Finset.range p.1.items.length).filter (Meets (p :: rest)) =
      meetingPlaces (p :: rest) := by
    ext i
    rw [mem_meetingPlaces hne, Finset.mem_filter, Finset.mem_range, and_iff_right_iff_imp]
    exact fun h => h.lt_length (by simp)
  have hcard : ((Finset.range p.1.items.length).filter (Meets (p :: rest))).card =
      (List.range p.1.items.length).countP (Meets (p :: rest) ·) := by
    rw [List.countP_eq_length_filter]
    rfl
  rw [← hplaces, hcard, countPlaces]
  refine List.countP_congr fun i _ => ?_
  rw [List.all_map, decide_eq_true_iff, meets_iff_all]
  rfl

theorem countIfs_pairArguments (pairs : List (Value × Value)) :
    countIfs (pairArguments pairs) =
      .ok (.ofNat (countPlaces (pairs.map fun p => (p.1.items, .ofValue p.2)))) := by
  have heven : ¬(pairArguments pairs).length % 2 ≠ 0 := by
    rw [length_pairArguments]
    omega
  rw [countIfs, if_neg heven, criterionPairs_pairArguments]
  rfl

theorem countIfs_eq_card {pairs : List (Value × Value)} (hne : pairs ≠ []) :
    countIfs (pairArguments pairs) = .ok (.ofNat (meetingPlaces pairs).card) := by
  rw [countIfs_pairArguments, countPlaces_eq_card hne]

/-- The same pairs give the same count, in any order and however often they stand there. -/
theorem countIfs_congr {pairs others : List (Value × Value)} (hne : pairs ≠ [])
    (hsubset : pairs ⊆ others) (hmore : others ⊆ pairs) :
    countIfs (pairArguments others) = countIfs (pairArguments pairs) := by
  have hothers := ne_nil_of_subset hne hsubset
  have hplaces : meetingPlaces others = meetingPlaces pairs :=
    Finset.Subset.antisymm (meetingPlaces_subset hne hsubset) (meetingPlaces_subset hothers hmore)
  rw [countIfs_eq_card hothers, countIfs_eq_card hne, hplaces]

theorem countP_range_any {α : Type} (p : α → Bool) (xs : List α) :
    (List.range xs.length).countP (fun i => xs[i]?.any p) = xs.countP p := by
  induction xs with
  | nil => rfl
  | cons x xs ih =>
      rw [List.length_cons, List.range_succ_eq_map, List.countP_cons, List.countP_map,
        List.countP_cons, ← ih]
      simp [Function.comp_def]

theorem countIfs_single (range criterion : Value) :
    countIfs (pairArguments [(range, criterion)]) = .ok (countIf range criterion) := by
  have hplaces : countPlaces [(range.items, .ofValue criterion)] =
      range.items.countP (Criterion.ofValue criterion).accepts := by
    rw [← countP_range_any]
    refine List.countP_congr fun i _ => ?_
    simp
  rw [countIfs_pairArguments, countIf, ← hplaces]
  rfl

theorem countIfs_odd {args : List Value} (h : args.length % 2 = 1) :
    countIfs args = .error (.argumentCount "COUNTIFS" .pairs args.length) := by
  rw [countIfs, if_pos (by omega)]

/-- Counting by several criteria counts the places, below the end of the shortest range, at which
every range meets its criterion. Neither the order of the pairs nor a repeated pair makes a
difference, a pair more never gives a larger count, one pair counts as a single criterion does, and
a range without a criterion is an error. -/
theorem countIfs_places {pairs : List (Value × Value)} (hne : pairs ≠ []) :
    countIfs (pairArguments pairs) = .ok (.ofNat (meetingPlaces pairs).card) ∧
    (∀ others, others.Perm pairs →
      countIfs (pairArguments others) = countIfs (pairArguments pairs)) ∧
    (∀ p ∈ pairs, countIfs (pairArguments (p :: pairs)) = countIfs (pairArguments pairs)) ∧
    (∀ others, pairs ⊆ others →
      countIfs (pairArguments others) = .ok (.ofNat (meetingPlaces others).card) ∧
        (meetingPlaces others).card ≤ (meetingPlaces pairs).card) ∧
    (∀ range criterion, pairs = [(range, criterion)] →
      countIfs (pairArguments pairs) = .ok (countIf range criterion)) ∧
    (∀ args, args.length % 2 = 1 →
      countIfs args = .error (.argumentCount "COUNTIFS" .pairs args.length)) := by
  refine ⟨countIfs_eq_card hne, ?_, ?_, ?_, ?_, fun args h => countIfs_odd h⟩
  · exact fun others h => countIfs_congr hne h.symm.subset h.subset
  · intro p hp
    exact countIfs_congr hne (List.subset_cons_self p pairs)
      (List.cons_subset.2 ⟨hp, List.Subset.refl pairs⟩)
  · intro others hsubset
    exact ⟨countIfs_eq_card (ne_nil_of_subset hne hsubset),
      Finset.card_le_card (meetingPlaces_subset hne hsubset)⟩
  · rintro range criterion rfl
    exact countIfs_single range criterion

/-- The ranges end in different places, and the longer one goes on with a value that would count. -/
theorem countIfs_places_regions :
    let units : Value × Value := (.array [.number 1, .number 5, .number 7, .number 9], .text ">1")
    let regions : Value × Value :=
      (.array [.text "east", .text "East", .text "west"], .text "east")
    [units, regions] ≠ [] ∧
      countIfs (pairArguments [units, regions]) = .ok (.ofNat 1) ∧
      countIfs (pairArguments [regions, units]) = .ok (.ofNat 1) ∧
      countIfs (pairArguments [units, units, regions]) = .ok (.ofNat 1) := by
  intro units regions
  have hne : [units, regions] ≠ [] := by simp
  have hcard : (meetingPlaces [units, regions]).card = 1 := by decide +kernel
  obtain ⟨hcount, hperm, htwice, -⟩ := countIfs_places hne
  rw [hcard] at hcount
  exact ⟨hne, hcount, (hperm _ (.swap units regions [])).trans hcount,
    (htwice units (by simp)).trans hcount⟩

end SheetBoard.Script
