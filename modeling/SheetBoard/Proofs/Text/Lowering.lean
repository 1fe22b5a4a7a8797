import Mathlib.Data.List.Infix
import SheetBoard.Text.Case

/-! The lower-case form of a text as a part of a longer one. Every character but the capital sigma is
lowered on its own, and all but the capital I with a dot become one character. What becomes of a
sigma is up to the nearest characters that are not case-ignorable, and these may lie outside the
part. -/

namespace SheetBoard.Text

/-! ### Neighbours -/

theorem meetsCased_append_of_ignorable {x : List Char} (hx : x.all isCaseIgnorable = true)
    (y : List Char) : meetsCased (x ++ y) = meetsCased y := by
  have hdrop : (x ++ y).dropWhile isCaseIgnorable = y.dropWhile isCaseIgnorable :=
    List.dropWhile_append_of_pos (by simpa using hx)
  rw [meetsCased, hdrop, meetsCased]

theorem meetsCased_append_of_decided {x : List Char} (hx : x.all isCaseIgnorable = false)
    (y : List Char) : meetsCased (x ++ y) = meetsCased x := by
  induction x with
  | nil => cases hx
  | cons c x ih =>
      cases hc : isCaseIgnorable c with
      | true =>
          have hmore : x.all isCaseIgnorable = false := by simpa [hc] using hx
          simpa [meetsCased, hc] using ih hmore
      | false => simp [meetsCased, hc]

theorem meetsCased_of_ignorable {x : List Char} (hx : x.all isCaseIgnorable = true) :
    meetsCased x = false := by
  simpa [meetsCased] using meetsCased_append_of_ignorable hx []

/-! ### Parts of a text -/

/-- What a character becomes between the text `before` it, nearest character first, and the text
`after` it. -/
def lowerAt (before : List Char) (c : Char) (after : List Char) : List Char :=
  if c = 'Σ' then [if meetsCased before && !meetsCased after then 'ς' else 'σ'] else lowerChar c

/-- What a part of a text becomes between the text before it and the text after it. -/
def lowerBetween (before : List Char) : List Char → List Char → List Char
  | [], _ => []
  | c :: cs, after => lowerAt before c (cs ++ after) ++ lowerBetween (c :: before) cs after

theorem lowerFrom_append (before a b : List Char) :
    lowerFrom before (a ++ b) =
      lowerBetween before a b ++ lowerFrom (a.reverse ++ before) b := by
  induction a generalizing before with
  | nil => rfl
  | cons c a ih =>
      rw [List.cons_append, lowerFrom, ih, lowerBetween, List.append_assoc, List.reverse_cons,
        List.append_assoc]
      rfl

theorem lower_eq_lowerBetween (cs : List Char) : lower cs = lowerBetween [] cs [] := by
  have hwhole := lowerFrom_append [] cs []
  rwa [List.append_nil, lowerFrom, List.append_nil] at hwhole

theorem lower_append (a b c : List Char) :
    lower (a ++ b ++ c) = lowerBetween [] a (b ++ c) ++
      (lowerBetween a.reverse b c ++ lowerFrom (b.reverse ++ a.reverse) c) := by
  rw [lower, List.append_assoc, lowerFrom_append, lowerFrom_append, List.append_nil]

theorem lowerBetween_append (before a b after : List Char) :
    lowerBetween before (a ++ b) after =
      lowerBetween before a (b ++ after) ++ lowerBetween (a.reverse ++ before) b after := by
  induction a generalizing before with
  | nil => rfl
  | cons c a ih => simp [lowerBetween, ih]

/-- A part is lowered alike in two places if each capital sigma of it is. -/
theorem lowerBetween_congr {before before' cs after after' : List Char}
    (h : ∀ x y, cs = x ++ 'Σ' :: y →
      lowerAt (x.reverse ++ before) 'Σ' (y ++ after) =
        lowerAt (x.reverse ++ before') 'Σ' (y ++ after')) :
    lowerBetween before cs after = lowerBetween before' cs after' := by
  induction cs generalizing before before' with
  | nil => rfl
  | cons c cs ih =>
      have hrest : lowerBetween (c :: before) cs after = lowerBetween (c :: before') cs after' := by
        apply ih
        intro x y hcs
        simpa using h (c :: x) y (by rw [hcs]; rfl)
      have hfirst : lowerAt before c (cs ++ after) = lowerAt before' c (cs ++ after') := by
        by_cases hc : c = 'Σ'
        · subst hc
          exact h [] cs rfl
        · rw [lowerAt, lowerAt, if_neg hc, if_neg hc]
      rw [lowerBetween, lowerBetween, hfirst, hrest]

/-! ### Lengths -/

theorem length_lowerChar (c : Char) : (lowerChar c).length = if c = 'İ' then 2 else 1 := by
  have hcode : c.toNat = 0x130 ↔ c = 'İ' := by
    rw [← Char.toNat_inj]
    exact Iff.rfl
  by_cases hc : c = 'İ'
  · subst hc
    rfl
  · rw [lowerChar, if_neg hc, if_neg (hcode.not.2 hc)]
    split <;> rfl

theorem length_lowerAt (before : List Char) (c : Char) (after : List Char) :
    (lowerAt before c after).length = if c = 'İ' then 2 else 1 := by
  by_cases hc : c = 'Σ'
  · subst hc
    rfl
  · rw [lowerAt, if_neg hc, length_lowerChar]

/-- Each capital I with a dot is one character more. -/
theorem length_lowerBetween (before cs after : List Char) :
    (lowerBetween before cs after).length = cs.length + cs.count 'İ' := by
  induction cs generalizing before with
  | nil => rfl
  | cons c cs ih =>
      rw [lowerBetween, List.length_append, length_lowerAt, ih, List.length_cons, List.count_cons]
      by_cases hc : c = 'İ'
      · rw [if_pos hc, if_pos (beq_iff_eq.2 hc)]
        omega
      · rw [if_neg hc, if_neg (mt beq_iff_eq.1 hc)]
        omega

theorem length_lower (cs : List Char) : (lower cs).length = cs.length + cs.count 'İ' := by
  rw [lower_eq_lowerBetween, length_lowerBetween]

/-- A place of the lower-case form is one of the text if nothing before it gets longer. -/
theorem le_length_of_le_length_lower {cs : List Char} {i : Nat} (h : i ≤ (lower cs).length)
    (hplain : 'İ' ∉ cs.take i) : i ≤ cs.length := by
  by_contra hlarge
  rw [List.take_of_length_le (by omega)] at hplain
  rw [length_lower, List.count_eq_zero_of_not_mem hplain] at h
  omega

/-! ### Parts whose neighbours do not matter -/

/-- What becomes of each capital sigma is decided within the text: in front of it stands a character
that counts, or behind it a cased one, and if a cased one stands in front, one that counts stands
behind it. -/
def Settled (cs : List Char) : Prop :=
  ∀ i < cs.length, cs[i]? = some 'Σ' →
    ((cs.take i).all isCaseIgnorable = true → meetsCased (cs.drop (i + 1)) = true) ∧
      (meetsCased (cs.take i).reverse = true → (cs.drop (i + 1)).all isCaseIgnorable = false)

instance (cs : List Char) : Decidable (Settled cs) :=
  inferInstanceAs (Decidable (∀ i < cs.length, _))

theorem settled_iff {cs : List Char} : Settled cs ↔ ∀ x y, cs = x ++ 'Σ' :: y →
    (x.all isCaseIgnorable = true → meetsCased y = true) ∧
      (meetsCased x.reverse = true → y.all isCaseIgnorable = false) := by
  constructor
  · rintro h x y rfl
    simpa using h x.length (by simp) (by simp)
  · intro h i hi hsigma
    apply h
    have hget : cs[i] = 'Σ' := (List.getElem?_eq_some_iff.1 hsigma).2
    rw [← hget, List.getElem_cons_drop, List.take_append_drop]

theorem Settled.lowerBetween {cs : List Char} (h : Settled cs) (before after : List Char) :
    Text.lowerBetween before cs after = lower cs := by
  rw [lower_eq_lowerBetween]
  apply lowerBetween_congr
  intro x y hcs
  obtain ⟨hfront, hback⟩ := settled_iff.1 h x y hcs
  rw [List.append_nil, List.append_nil]
  by_cases hx : x.all isCaseIgnorable = true
  · -- The cased character behind the sigma keeps it from being final.
    have hy : y.all isCaseIgnorable = false := by
      cases hall : y.all isCaseIgnorable with
      | false => rfl
      | true =>
          have hnone := meetsCased_of_ignorable hall
          rw [hfront hx] at hnone
          cases hnone
    simp [lowerAt, meetsCased_append_of_decided hy, hfront hx]
  · have hreverse : x.reverse.all isCaseIgnorable = false := by simpa using hx
    rw [lowerAt, lowerAt, meetsCased_append_of_decided hreverse]
    cases hcased : meetsCased x.reverse with
    | false => simp
    | true => rw [meetsCased_append_of_decided (hback hcased)]

theorem isCaseIgnorable_sigma : isCaseIgnorable 'Σ' = false := by decide +kernel

theorem sigma_notMem_of_ignorable {cs : List Char} (h : cs.all isCaseIgnorable = true) :
    'Σ' ∉ cs := by
  intro hmem
  have hsigma : isCaseIgnorable 'Σ' = true := List.all_eq_true.1 h 'Σ' hmem
  rw [isCaseIgnorable_sigma] at hsigma
  cases hsigma

theorem lowerBetween_of_notMem {cs : List Char} (h : 'Σ' ∉ cs) (before after : List Char) :
    lowerBetween before cs after = lower cs := by
  rw [lower_eq_lowerBetween]
  apply lowerBetween_congr
  rintro x y rfl
  simp at h

theorem lowerBetween_before {before : List Char} (h : before.all isCaseIgnorable = false)
    (more cs after : List Char) :
    lowerBetween (before ++ more) cs after = lowerBetween before cs after := by
  apply lowerBetween_congr
  intro x y _
  have hdecided : (x.reverse ++ before).all isCaseIgnorable = false := by simp [h]
  rw [lowerAt, lowerAt, ← List.append_assoc, meetsCased_append_of_decided hdecided]

theorem lowerBetween_after {after : List Char} (h : after.all isCaseIgnorable = false)
    (before cs more : List Char) :
    lowerBetween before cs (after ++ more) = lowerBetween before cs after := by
  apply lowerBetween_congr
  intro x y _
  have hdecided : (y ++ after).all isCaseIgnorable = false := by simp [h]
  rw [lowerAt, lowerAt, ← List.append_assoc, meetsCased_append_of_decided hdecided]

theorem lowerBetween_sigma (before x y after : List Char) :
    lowerBetween before (x ++ 'Σ' :: y) after =
      lowerBetween before x ('Σ' :: (y ++ after)) ++
        (lowerAt (x.reverse ++ before) 'Σ' (y ++ after) ++
          lowerBetween ('Σ' :: (x.reverse ++ before)) y after) := by
  rw [lowerBetween_append, lowerBetween]
  rfl

/-- A text in which one of the characters has been changed, and that holds no other one of its kind,
is not found. -/
theorem not_infix_of_changed {x z front back : List Char} {c d : Char} (hd : d ≠ c)
    (hfront : c ∉ front) (hback : c ∉ back) :
    ¬ x ++ c :: z <:+: front ++ (x ++ d :: z ++ back) := by
  intro hinfix
  have hcount := hinfix.sublist.count_le c
  simp only [List.count_append, List.count_cons_self, List.count_cons_of_ne hd,
    List.count_eq_zero_of_not_mem hfront, List.count_eq_zero_of_not_mem hback] at hcount
  omega

section

variable {x y : List Char}

/-- A letter in front makes the first sigma final. -/
theorem not_infix_behind_letter (hx : x.all isCaseIgnorable = true) (hy : meetsCased y = false) :
    ¬ lower (x ++ 'Σ' :: y) <:+: lower (['a'] ++ (x ++ 'Σ' :: y) ++ []) := by
  have hx' : x.reverse.all isCaseIgnorable = true := by simpa using hx
  have hsigma : ('Σ' :: x.reverse).all isCaseIgnorable = false := by
    rw [List.all_cons, isCaseIgnorable_sigma, Bool.false_and]
  have halone : lower (x ++ 'Σ' :: y) =
      lower x ++ 'σ' :: lowerBetween ('Σ' :: x.reverse) y [] := by
    rw [lower_eq_lowerBetween, lowerBetween_sigma,
      lowerBetween_of_notMem (sigma_notMem_of_ignorable hx), List.append_nil, lowerAt,
      meetsCased_of_ignorable hx']
    rfl
  have hwithin : lower (['a'] ++ (x ++ 'Σ' :: y) ++ []) =
      ['a'] ++ (lower x ++ 'ς' :: lowerBetween ('Σ' :: x.reverse) y [] ++ []) := by
    rw [lower_append, lowerBetween_sigma, lowerBetween_of_notMem (sigma_notMem_of_ignorable hx),
      lowerAt, List.append_nil y, meetsCased_append_of_ignorable hx', hy, ← List.cons_append,
      lowerBetween_before hsigma]
    rfl
  rw [halone, hwithin]
  exact not_infix_of_changed (by decide) (by decide) (by decide)

/-- A letter behind keeps the last sigma from being final. -/
theorem not_infix_before_letter (hx : meetsCased x.reverse = true)
    (hy : y.all isCaseIgnorable = true) :
    ¬ lower (x ++ 'Σ' :: y) <:+: lower ([] ++ (x ++ 'Σ' :: y) ++ ['a']) := by
  have hsigma : ('Σ' :: y).all isCaseIgnorable = false := by
    rw [List.all_cons, isCaseIgnorable_sigma, Bool.false_and]
  have hletter : meetsCased ['a'] = true := by decide +kernel
  have halone : lower (x ++ 'Σ' :: y) = lowerBetween [] x ('Σ' :: y) ++ 'ς' :: lower y := by
    rw [lower_eq_lowerBetween, lowerBetween_sigma,
      lowerBetween_of_notMem (sigma_notMem_of_ignorable hy), List.append_nil, List.append_nil,
      lowerAt, hx, meetsCased_of_ignorable hy]
    rfl
  have hwithin : lower ([] ++ (x ++ 'Σ' :: y) ++ ['a']) =
      [] ++ (lowerBetween [] x ('Σ' :: y) ++ 'σ' :: lower y ++ ['a']) := by
    rw [lower_append, lowerBetween_sigma, lowerBetween_of_notMem (sigma_notMem_of_ignorable hy),
      lowerAt, meetsCased_append_of_ignorable hy, hletter, Bool.not_true, Bool.and_false,
      ← List.cons_append, lowerBetween_after hsigma]
    rfl
  rw [halone, hwithin]
  exact not_infix_of_changed (by decide) (by decide) (by decide)

end

/-- A text is settled exactly if its lower-case form is found wherever the text is. -/
theorem settled_iff_infix {cs : List Char} :
    Settled cs ↔ ∀ a b, lower cs <:+: lower (a ++ cs ++ b) := by
  constructor
  · intro h a b
    rw [lower_append, h.lowerBetween, ← List.append_assoc]
    exact List.infix_append _ _ _
  · intro h
    rw [settled_iff]
    rintro x y rfl
    constructor
    · intro hx
      by_contra hy
      exact not_infix_behind_letter hx (by simpa using hy) (h ['a'] [])
    · intro hx
      by_contra hy
      exact not_infix_before_letter hx (by simpa using hy) (h [] ['a'])

end SheetBoard.Text
