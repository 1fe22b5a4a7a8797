import Mathlib.Data.List.Shortlex
import Mathlib.Tactic.Ring
import SheetBoard.Proofs.Naming

/-! Column letters are numerals whose digits are one to 26. As there is no zero among them, every
position has one spelling and every spelling one position, and both are in the same order. Letters
are spelled below `2 ^ 63` and read up to the end of a word. -/

namespace SheetBoard.Letters

/-! ### The number that letters spell -/

/-- The number that letters spell, each one a digit from one to 26. -/
def worth : List Char → Nat
  | [] => 0
  | c :: cs => value c * 26 ^ cs.length + worth cs

theorem extend?_of_isAsciiLetter {c : Char} (hc : Text.isAsciiLetter c = true) (n : Nat) :
    extend? n c =
      if 26 * n + value c < Number.wordSize then some (26 * n + value c) else none := by
  simp [extend?, hc]

/-- Reading goes on to the end unless the whole number does not fit: what has been read never gets
smaller. -/
theorem foldlM_of_letters {cs : List Char} (hcs : ∀ c ∈ cs, Text.isAsciiLetter c = true) {n : Nat}
    (hn : n < Number.wordSize) :
    cs.foldlM extend? n =
      if n * 26 ^ cs.length + worth cs < Number.wordSize
        then some (n * 26 ^ cs.length + worth cs) else none := by
  induction cs generalizing n with
  | nil => simp [worth, hn]
  | cons c cs ih =>
      have hwhole : n * 26 ^ (c :: cs).length + worth (c :: cs) =
          (26 * n + value c) * 26 ^ cs.length + worth cs := by
        rw [worth, List.length_cons, Nat.pow_succ]
        ring
      have hpower : 0 < 26 ^ cs.length := Nat.pow_pos (by decide)
      rw [List.foldlM_cons, extend?_of_isAsciiLetter (hcs c (by simp)), hwhole]
      by_cases hfit : 26 * n + value c < Number.wordSize
      · rw [if_pos hfit]
        exact ih (fun d hd => hcs d (by simp [hd])) hfit
      · have hlarge : ¬ (26 * n + value c) * 26 ^ cs.length + worth cs < Number.wordSize := by
          have hmul := Nat.le_mul_of_pos_right (26 * n + value c) hpower
          omega
        rw [if_neg hfit, if_neg hlarge]
        rfl

theorem foldlM_of_other {cs : List Char} {c : Char} (hmem : c ∈ cs)
    (hc : Text.isAsciiLetter c = false) (n : Nat) : cs.foldlM extend? n = none := by
  induction cs generalizing n with
  | nil => cases hmem
  | cons d cs ih =>
      rw [List.foldlM_cons]
      rcases List.mem_cons.1 hmem with rfl | hmem
      · have hfail : extend? n c = none := by simp [extend?, hc]
        rw [hfail]
        rfl
      · cases hd : extend? n d with
        | none => rfl
        | some m => exact ih hmem m

theorem toIndex?_eq_none_iff {cs : List Char} :
    toIndex? cs = none ↔
      cs = [] ∨ (∃ c ∈ cs, Text.isAsciiLetter c = false) ∨ Number.wordSize ≤ worth cs := by
  by_cases hempty : cs = []
  · simp [hempty, toIndex?]
  by_cases hother : ∃ c ∈ cs, Text.isAsciiLetter c = false
  · obtain ⟨c, hmem, hc⟩ := hother
    have hread : toIndex? cs = none := by simp [toIndex?, foldlM_of_other hmem hc]
    simp only [hread, true_iff]
    exact .inr (.inl ⟨c, hmem, hc⟩)
  · have hletters : ∀ c ∈ cs, Text.isAsciiLetter c = true := by simpa using hother
    have hread := foldlM_of_letters hletters (n := 0) (by decide)
    rw [Nat.zero_mul, Nat.zero_add] at hread
    by_cases hfit : worth cs < Number.wordSize
    · simp [toIndex?, hread, hfit, hempty, hother]
    · simp [toIndex?, hread, hfit, Nat.not_lt.1 hfit]

theorem isAsciiLetter_of_toIndex? {cs : List Char} {n : Nat} (h : toIndex? cs = some n) :
    ∀ c ∈ cs, Text.isAsciiLetter c = true := by
  intro c hc
  by_contra hother
  have hnone := toIndex?_eq_none_iff.2 (.inr (.inl ⟨c, hc, by simpa using hother⟩))
  rw [h] at hnone
  cases hnone

theorem upper_eq_map {cs : List Char} (h : ∀ c ∈ cs, Text.isAsciiLetter c = true) :
    Text.upper cs = cs.map Char.toUpper := by
  have hchar : ∀ c ∈ cs, Text.upperChar c = [c.toUpper] := by
    intro c hc
    have hascii : Text.isAscii c = true := by
      simpa [Text.isAscii] using toNat_lt_of_isAsciiLetter (h c hc)
    rw [Text.upperChar, if_pos hascii]
  rw [Text.upper, List.flatMap_congr hchar, List.map_eq_flatMap]

/-! ### The order of spellings -/

theorem letter_lt_letter : ∀ n < 26, ∀ m < n, letter m < letter n := by decide

/-- What decides between two texts also decides between those with a letter more each. -/
theorem shortlex_concat {a b : List Char} (h : List.Shortlex (· < ·) a b) (c d : Char) :
    List.Shortlex (· < ·) (a ++ [c]) (b ++ [d]) := by
  have hlex : ∀ {a b : List Char}, a.length = b.length → List.Lex (· < ·) a b →
      List.Lex (· < ·) (a ++ [c]) (b ++ [d]) := by
    intro a b hlength h
    induction h with
    | nil => simp at hlength
    | rel hlt => exact .rel hlt
    | cons _ ih => exact .cons (ih (by simpa using hlength))
  rcases List.shortlex_def.1 h with hshort | ⟨hlength, h⟩
  · exact .of_length_lt (by simpa using hshort)
  · exact .of_lex (by simpa using hlength) (hlex hlength h)

/-- The letters before the last one count the rounds through the alphabet, so they decide first. -/
theorem shortlex_spell {m n : Nat} (h : m < n) : List.Shortlex (· < ·) (spell m) (spell n) := by
  induction n using Nat.strong_induction_on generalizing m with
  | _ n ih =>
    rw [spell.eq_def n]
    by_cases hn : n < 26
    · rw [if_pos hn, spell, if_pos (Nat.lt_trans h hn), List.shortlex_singleton_iff]
      exact letter_lt_letter n hn m h
    rw [if_neg hn, spell]
    by_cases hm : m < 26
    · have hlength := List.length_pos_of_ne_nil (spell_ne_nil (n / 26 - 1))
      rw [if_pos hm]
      exact .of_length_lt (by simpa using hlength)
    rw [if_neg hm]
    rcases Nat.lt_or_ge (m / 26) (n / 26) with hrounds | hrounds
    · exact shortlex_concat (ih _ (by omega) (by omega)) _ _
    · have hsame : m / 26 = n / 26 := by omega
      rw [hsame]
      refine List.Shortlex.append_left ?_ _
      rw [List.shortlex_singleton_iff]
      exact letter_lt_letter _ (Nat.mod_lt n (by decide)) _ (by omega)

/-! ### Positions and letters -/

/-- Letters and positions stand for each other up to the end of a signed word. Exactly the letters
of either case are read whose number fits into a word, they are the spelling of their position in
capitals, and later positions have later spellings, the shorter ones first. -/
theorem ofIndex_toIndex?_inverse :
    (∀ n < 2 ^ 63, toIndex? (ofIndex n) = some n) ∧
    (∀ cs, toIndex? cs = none ↔
      cs = [] ∨ (∃ c ∈ cs, Text.isAsciiLetter c = false) ∨ 2 ^ 64 - 1 < worth cs) ∧
    (∀ cs n, toIndex? cs = some n → n < 2 ^ 63 → ofIndex n = Text.upper cs) ∧
    (∀ m n, m < n → n < 2 ^ 63 → List.Shortlex (· < ·) (ofIndex m) (ofIndex n)) := by
  have hspell : ∀ n < 2 ^ 63, ofIndex n = spell n := fun n hn => if_pos hn
  refine ⟨fun n hn => ?_, fun cs => ?_, fun cs n hread hn => ?_, fun m n hlt hn => ?_⟩
  · rw [hspell n hn, toIndex?_spell hn]
  · exact toIndex?_eq_none_iff
  · rw [ofIndex_of_toIndex? hread hn, upper_eq_map (isAsciiLetter_of_toIndex? hread)]
  · rw [hspell m (Nat.lt_trans hlt hn), hspell n hn]
    exact shortlex_spell hlt

/-- The last position with letters, the first letters that do not fit into a word, and the place
where spellings get longer. -/
theorem ofIndex_toIndex?_inverse_last :
    let last := "crpxnlskvljfHH".toList
    let past := "GKGWBYLWRXTLPP".toList
    toIndex? last = some (2 ^ 63 - 1) ∧ ofIndex (2 ^ 63 - 1) = "CRPXNLSKVLJFHH".toList ∧
      toIndex? (ofIndex (2 ^ 63 - 1)) = some (2 ^ 63 - 1) ∧
      worth past = 2 ^ 64 ∧ toIndex? past = none ∧
      ofIndex 701 = ['Z', 'Z'] ∧ ofIndex 702 = ['A', 'A', 'A'] ∧
      List.Shortlex (· < ·) (ofIndex 701) (ofIndex 702) := by
  intro last past
  have hlast : toIndex? last = some (2 ^ 63 - 1) ∧
      Text.upper last = "CRPXNLSKVLJFHH".toList := by decide +kernel
  have hpast : worth past = 2 ^ 64 := by decide +kernel
  have hshort : ofIndex 701 = ['Z', 'Z'] ∧ ofIndex 702 = ['A', 'A', 'A'] := by decide +kernel
  obtain ⟨hread, hnone, hwrite, horder⟩ := ofIndex_toIndex?_inverse
  exact ⟨hlast.1, (hwrite last _ hlast.1 (by decide)).trans hlast.2, hread _ (by decide), hpast,
    (hnone past).2 (.inr (.inr (by rw [hpast]; decide))), hshort.1, hshort.2,
    horder 701 702 (by decide) (by decide)⟩

end SheetBoard.Letters
