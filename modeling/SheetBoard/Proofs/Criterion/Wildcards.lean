import Mathlib.Data.List.Forall2
import SheetBoard.Proofs.Condition.Reading

/-! Wildcards in criteria. The search for a match goes back to the last star only, which is enough:
a text that a pattern finds after an earlier star, it also finds after the last one. The search
differs from the meaning of the wildcards in one point, on texts with a star of their own. -/

namespace SheetBoard

open SheetBoard.Script (Value)

namespace Text

/-- The meaning of the wildcards: a star stands for any text, a question mark for one character, and
every other character for itself. -/
inductive Matches : List Char → List Char → Prop where
  | nil : Matches [] []
  | star {pattern rest : List Char} (taken : List Char) :
      Matches pattern rest → Matches ('*' :: pattern) (taken ++ rest)
  | one {pattern rest : List Char} (c : Char) :
      Matches pattern rest → Matches ('?' :: pattern) (c :: rest)
  | same {pattern rest : List Char} {c : Char} (hstar : c ≠ '*') (hone : c ≠ '?') :
      Matches pattern rest → Matches (c :: pattern) (c :: rest)

/-- A character of the pattern that the search takes for one of the text. -/
def Fits (d c : Char) : Prop := d = '?' ∨ d = c

/-- What the search accepts: a star that meets a star of the text is taken for that one, and stands
for any text only elsewhere. -/
inductive Finds : List Char → List Char → Prop where
  | nil : Finds [] []
  | star {pattern text rest : List Char} (hmeets : text.head? ≠ some '*') (hrest : rest <:+ text) :
      Finds pattern rest → Finds ('*' :: pattern) text
  | fit {pattern rest : List Char} {d c : Char} (hfits : Fits d c) :
      Finds pattern rest → Finds (d :: pattern) (c :: rest)

/-! ### The search and the meaning -/

theorem Finds.matches {pattern text : List Char} (h : Finds pattern text) :
    Matches pattern text := by
  induction h with
  | nil => exact .nil
  | star _ hrest _ ih =>
      obtain ⟨taken, rfl⟩ := hrest
      exact .star taken ih
  | @fit pattern rest d c hfits _ ih =>
      rcases hfits with rfl | rfl
      · exact .one c ih
      by_cases hstar : d = '*'
      · subst hstar
        exact .star ['*'] ih
      by_cases hone : d = '?'
      · subst hone
        exact .one '?' ih
      exact .same hstar hone ih

theorem Matches.finds {pattern text : List Char} (h : Matches pattern text)
    (hplain : '*' ∉ pattern ∨ '*' ∉ text) : Finds pattern text := by
  induction h with
  | nil => exact .nil
  | @star pattern rest taken _ ih =>
      have htext : '*' ∉ taken ++ rest := hplain.resolve_left (by simp)
      have hrest : '*' ∉ rest := fun hmem => htext (List.mem_append_right taken hmem)
      exact .star (fun hhead => htext (List.mem_of_head? hhead)) (List.suffix_append taken rest)
        (ih (.inr hrest))
  | one c _ ih =>
      exact .fit (.inl rfl) (ih (hplain.imp (mt (List.mem_cons_of_mem _))
        (mt (List.mem_cons_of_mem _))))
  | same _ _ _ ih =>
      exact .fit (.inr rfl) (ih (hplain.imp (mt (List.mem_cons_of_mem _))
        (mt (List.mem_cons_of_mem _))))

/-! ### One character -/

theorem finds_nil_iff {pattern : List Char} : Finds pattern [] ↔ ∀ d ∈ pattern, d = '*' := by
  induction pattern with
  | nil => exact iff_of_true .nil (by simp)
  | cons d pattern ih =>
      rw [List.forall_mem_cons, ← ih]
      refine ⟨fun h => ?_, ?_⟩
      · cases h with
        | star _ hrest hfinds => exact ⟨rfl, List.suffix_nil.1 hrest ▸ hfinds⟩
      · rintro ⟨rfl, hfinds⟩
        exact .star (by simp) List.suffix_rfl hfinds

theorem finds_cons_iff {d c : Char} (hfits : Fits d c) {pattern rest : List Char} :
    Finds (d :: pattern) (c :: rest) ↔ Finds pattern rest := by
  refine ⟨fun h => ?_, .fit hfits⟩
  cases h with
  | star hmeets =>
      -- the text goes on with a star, so that this one is not free
      obtain rfl : c = '*' := (hfits.resolve_left (by decide)).symm
      exact absurd rfl hmeets
  | fit _ hfinds => exact hfinds

theorem Finds.exists_suffix {d : Char} {pattern text : List Char} (h : Finds (d :: pattern) text) :
    ∃ rest, rest <:+ text ∧ Finds pattern rest := by
  cases h with
  | star _ hrest hfinds => exact ⟨_, hrest, hfinds⟩
  | fit _ hfinds => exact ⟨_, List.suffix_cons _ _, hfinds⟩

theorem finds_star_iff {c : Char} (hc : c ≠ '*') {pattern rest : List Char} :
    Finds ('*' :: pattern) (c :: rest) ↔ ∃ later, later <:+ c :: rest ∧ Finds pattern later := by
  refine ⟨Finds.exists_suffix, ?_⟩
  rintro ⟨later, hlater, hfinds⟩
  exact .star (by simpa using hc) hlater hfinds

theorem not_finds_cons {d c : Char} (hfits : ¬ Fits d c) (hd : d ≠ '*') {pattern rest : List Char} :
    ¬ Finds (d :: pattern) (c :: rest) := by
  intro h
  cases h with
  | star => exact hd rfl
  | fit hfit => exact hfits hfit

theorem not_finds_nil {c : Char} {rest : List Char} : ¬ Finds [] (c :: rest) := by
  intro h
  cases h

/-! ### Behind the last star -/

section

variable {walked passed : List Char} (hwalk : List.Forall₂ Fits walked passed)
  {pattern text : List Char}
include hwalk

theorem finds_append_iff : Finds (walked ++ pattern) (passed ++ text) ↔ Finds pattern text := by
  induction hwalk with
  | nil => rfl
  | cons hfits _ ih => exact (finds_cons_iff hfits).trans ih

/-- A later start leads past the same place: a star that was taken for one character when the search
passed it cannot stand for nothing there. -/
theorem Finds.exists_behind {rest : List Char} (hrest : rest <:+ passed ++ text)
    (h : Finds (walked ++ pattern) rest) : ∃ later, later <:+ text ∧ Finds pattern later := by
  induction hwalk generalizing rest with
  | nil => exact ⟨rest, hrest, h⟩
  | cons hfits _ ih =>
      rcases List.suffix_cons_iff.1 hrest with rfl | hrest
      · exact ih List.suffix_rfl ((finds_cons_iff hfits).1 h)
      · obtain ⟨next, hnext, hfinds⟩ := h.exists_suffix
        exact ih (hnext.trans hrest) hfinds

end

/-- The search is under way: what it has passed since the last star fits what it has walked of the
pattern after that star. -/
def UnderWay (star since pattern text : List Char) : Prop :=
  ∃ walked passed, List.Forall₂ Fits walked passed ∧ star = walked ++ pattern ∧
    since = passed ++ text

theorem UnderWay.start (star since : List Char) : UnderWay star since star since :=
  ⟨[], [], .nil, rfl, rfl⟩

theorem UnderWay.step {star since pattern rest : List Char} {d c : Char}
    (h : UnderWay star since (d :: pattern) (c :: rest)) (hfits : Fits d c) :
    UnderWay star since pattern rest := by
  obtain ⟨walked, passed, hwalk, rfl, rfl⟩ := h
  exact ⟨walked ++ [d], passed ++ [c], List.rel_append hwalk (.cons hfits .nil), by simp, by simp⟩

theorem UnderWay.since_ne_nil {star since pattern rest : List Char} {c : Char}
    (h : UnderWay star since pattern (c :: rest)) : since ≠ [] := by
  obtain ⟨walked, passed, -, -, rfl⟩ := h
  simp

/-- A start that fails is given up, and the last star takes one more character. -/
theorem UnderWay.exists_suffix_cons_iff {star since pattern text : List Char} {c : Char}
    (h : UnderWay star (c :: since) pattern text) (hfails : ¬ Finds pattern text) :
    (∃ rest, rest <:+ c :: since ∧ Finds star rest) ↔ ∃ rest, rest <:+ since ∧ Finds star rest := by
  obtain ⟨walked, passed, hwalk, rfl, hsince⟩ := h
  refine ⟨?_, ?_⟩
  · rintro ⟨rest, hrest, hfinds⟩
    rcases List.suffix_cons_iff.1 hrest with rfl | hrest
    · rw [hsince, finds_append_iff hwalk] at hfinds
      exact absurd hfinds hfails
    · exact ⟨rest, hrest, hfinds⟩
  · rintro ⟨rest, hrest, hfinds⟩
    exact ⟨rest, hrest.trans (List.suffix_cons c since), hfinds⟩

/-- Where the search commits itself, no start that it has not tried is lost. -/
theorem UnderWay.exists_suffix_iff {star since pattern text : List Char}
    (h : UnderWay star since pattern text)
    (hcommits : (∃ later, later <:+ text ∧ Finds pattern later) → Finds pattern text) :
    (∃ rest, rest <:+ since ∧ Finds star rest) ↔ Finds pattern text := by
  obtain ⟨walked, passed, hwalk, rfl, rfl⟩ := h
  refine ⟨?_, fun hfinds => ⟨_, List.suffix_rfl, (finds_append_iff hwalk).2 hfinds⟩⟩
  rintro ⟨rest, hrest, hfinds⟩
  exact hcommits (hfinds.exists_behind hwalk hrest)

/-- After a star, the search finds whether the rest of the pattern accepts some end of the text. -/
theorem globAfter_iff {star since pattern text : List Char} (h : pattern.length ≤ star.length)
    (hway : UnderWay star since pattern text) :
    globAfter star since pattern text h = true ↔ ∃ rest, rest <:+ since ∧ Finds star rest := by
  fun_induction globAfter star since pattern text h with
  | case1 star since pattern h =>
      rw [hway.exists_suffix_iff, finds_nil_iff]
      · simp
      · rintro ⟨later, hlater, hfinds⟩
        exact List.suffix_nil.1 hlater ▸ hfinds
  | case2 star since c rest d tail h hfits _ ih => exact ih (hway.step hfits)
  | case3 star since c rest tail h hfits _ ih =>
      -- what an earlier start could reach, the new star reaches from here
      have hc : c ≠ '*' := fun hc => hfits (.inr hc.symm)
      rw [ih (.start _ _), hway.exists_suffix_iff, finds_star_iff hc]
      rintro ⟨later, hlater, hfinds⟩
      obtain ⟨next, hnext, hfinds⟩ := hfinds.exists_suffix
      exact (finds_star_iff hc).2 ⟨next, hnext.trans hlater, hfinds⟩
  | case4 => exact absurd rfl hway.since_ne_nil
  | case5 star c rest d tail h hfits hd s since _ ih =>
      rw [ih (.start _ _), hway.exists_suffix_cons_iff (not_finds_cons hfits hd)]
  | case6 => exact absurd rfl hway.since_ne_nil
  | case7 star c rest h s since _ ih =>
      rw [ih (.start _ _), hway.exists_suffix_cons_iff not_finds_nil]

theorem glob_iff {pattern text : List Char} : glob pattern text = true ↔ Finds pattern text := by
  fun_induction glob pattern text with
  | case1 pattern =>
      rw [finds_nil_iff]
      simp
  | case2 c rest => exact iff_of_false (by simp) not_finds_nil
  | case3 d tail c rest hfits ih => rw [ih, finds_cons_iff hfits]
  | case4 tail c rest hfits =>
      have hc : c ≠ '*' := fun hc => hfits (.inr hc.symm)
      rw [globAfter_iff _ (.start _ _), finds_star_iff hc]
  | case5 d tail c rest hfits hd => exact iff_of_false (by simp) (not_finds_cons hfits hd)

/-- A pattern without wildcards finds itself only. -/
theorem finds_plain_iff {pattern text : List Char} (hstar : '*' ∉ pattern) (hone : '?' ∉ pattern) :
    Finds pattern text ↔ pattern = text := by
  induction pattern generalizing text with
  | nil =>
      cases text with
      | nil => exact iff_of_true .nil rfl
      | cons c rest => exact iff_of_false not_finds_nil (by simp)
  | cons d pattern ih =>
      have hd : d ≠ '*' ∧ d ≠ '?' :=
        ⟨(List.ne_of_not_mem_cons hstar).symm, (List.ne_of_not_mem_cons hone).symm⟩
      cases text with
      | nil => simp [finds_nil_iff, hd.1]
      | cons c rest =>
          by_cases hc : d = c
          · rw [finds_cons_iff (.inr hc), ih (mt (List.mem_cons_of_mem d) hstar)
              (mt (List.mem_cons_of_mem d) hone)]
            simp [hc]
          · have hfits : ¬ Fits d c := by simp [Fits, hd.2, hc]
            exact iff_of_false (not_finds_cons hfits hd.1) (by simp [hc])

end Text

namespace Criterion

theorem matchesPattern_iff {pattern text : List Char} :
    matchesPattern pattern text = true ↔ Text.Finds pattern text := by
  unfold matchesPattern
  split
  · exact Text.glob_iff
  · rename_i hplain
    simp only [Bool.or_eq_true, List.contains_iff_mem, not_or] at hplain
    rw [Text.finds_plain_iff hplain.1 hplain.2, beq_iff_eq]

/-- The text of a criterion that is a pattern: it is not blank, the signs in front of it, if any,
spell no comparison, and it is neither a truth word nor a number. -/
structure Plain (cs : List Char) : Prop where
  filled : Text.trim cs ≠ []
  signs : Comparison.ofText? ((Text.trim cs).takeWhile isOperatorChar) = none
  notTrue : Text.equalIgnoringCase (.ofList (Text.trim cs)) "true" = false
  notFalse : Text.equalIgnoringCase (.ofList (Text.trim cs)) "false" = false
  notNumber : Number.read? (Text.trim cs) = none

theorem ofText_plain {cs : List Char} (h : Plain cs) :
    ofText cs = .like (Text.lower (Text.trim cs)) := by
  have hcomparison : comparison? (Text.trim cs) = none := by
    simp [comparison?, h.signs]
  have hoperand : Operand.ofText (Text.trim cs) = .text (.ofList (Text.trim cs)) := by
    simp [Operand.ofText, Text.trim_trim, h.notTrue, h.notFalse, h.notNumber]
  simp [ofText, h.filled, hcomparison, hoperand]

/-- A pattern accepts the values that the search finds it in, with the case of all letters ignored.
These are values whose text the pattern matches, and all of them unless both have a star. -/
theorem accepts_pattern {p : String} (hp : Plain p.toList) (v : Value) :
    let pattern := Text.lower (Text.trim p.toList)
    let text := Text.lower v.asText
    ((ofValue (.text p)).accepts v = true ↔ Text.Finds pattern text) ∧
      ((ofValue (.text p)).accepts v = true → Text.Matches pattern text) ∧
      ('*' ∉ pattern ∨ '*' ∉ text →
        ((ofValue (.text p)).accepts v = true ↔ Text.Matches pattern text)) := by
  intro pattern text
  have haccepts : (ofValue (.text p)).accepts v = true ↔ Text.Finds pattern text := by
    rw [ofValue, ofText_plain hp]
    exact matchesPattern_iff
  refine ⟨haccepts, fun h => (haccepts.1 h).matches, fun hplain => ?_⟩
  rw [haccepts]
  exact ⟨Text.Finds.matches, fun h => h.finds hplain⟩

/-- The first `24` of the text is not its end, so that the search goes back to the star. -/
theorem accepts_pattern_years :
    Plain " Q?-*24 ".toList ∧ (ofValue (.text " Q?-*24 ")).accepts (.text "q1-2024-24") = true := by
  have hplain : Plain " Q?-*24 ".toList :=
    ⟨by decide +kernel, by decide +kernel, by decide +kernel, by decide +kernel, by decide +kernel⟩
  have hpattern : Text.lower (Text.trim " Q?-*24 ".toList) = "q?-*24".toList := by decide +kernel
  have htext : Text.lower (Value.text "q1-2024-24").asText = "q1-2024-24".toList := by
    decide +kernel
  refine ⟨hplain, ((accepts_pattern hplain (.text "q1-2024-24")).2.2 ?_).2 ?_⟩
  · rw [htext]
    exact .inr (by decide)
  · rw [hpattern, htext]
    exact .same (by decide) (by decide) (.one '1' (.same (by decide) (by decide)
      (.star "2024-".toList (.same (by decide) (by decide) (.same (by decide) (by decide) .nil)))))

/-- The pattern's star is taken for that of the text, and then the next characters do not fit. -/
theorem accepts_starred_text :
    Plain "*a".toList ∧ (ofValue (.text "*a")).accepts (.text "*ba") = false ∧
      Text.Matches (Text.lower (Text.trim "*a".toList)) (Text.lower (Value.text "*ba").asText) := by
  have hpattern : Text.lower (Text.trim "*a".toList) = "*a".toList := by decide +kernel
  have htext : Text.lower (Value.text "*ba").asText = "*ba".toList := by decide +kernel
  refine ⟨⟨by decide, by decide, by decide, by decide, by decide⟩, by decide +kernel, ?_⟩
  rw [hpattern, htext]
  exact .star "*b".toList (.same (by decide) (by decide) .nil)

end Criterion

end SheetBoard
