import Mathlib.Data.List.Basic
import SheetBoard.Proofs.Condition.Cutting

/-! What reading a condition gives. The cut is at the first comparison that can be reached, so that
a text is cut within its column as soon as a sign stands there behind the first character. -/

namespace SheetBoard

namespace Text

variable {cs : List Char}

theorem trimStart_suffix (cs : List Char) : trimStart cs <:+ cs := List.dropWhile_suffix isBlank

theorem trimEnd_isPrefix (cs : List Char) : trimEnd cs <+: cs := by
  have hsuffix : cs.reverse.dropWhile isBlank <:+ cs.reverse := List.dropWhile_suffix isBlank
  simpa [trimEnd, dropEndWhile] using List.reverse_prefix.2 hsuffix

theorem mem_of_mem_trim {c : Char} (h : c ∈ trim cs) : c ∈ cs :=
  (trimStart_suffix cs).subset ((trimEnd_isPrefix _).subset h)

theorem trim_trim (cs : List Char) : trim (trim cs) = trim cs := by
  apply trim_eq_self
  · have hstart := any_head?_dropWhile_isBlank cs
    obtain ⟨rest, hrest⟩ := trimEnd_isPrefix (trimStart cs)
    cases htrim : trim cs with
    | nil => rfl
    | cons c more =>
        have hcons : cs.dropWhile isBlank = c :: (more ++ rest) := by
          rw [trim] at htrim
          rw [← List.cons_append, ← htrim, hrest, trimStart]
        simpa [hcons] using hstart
  · rw [trim, trimEnd, dropEndWhile, List.getLast?_reverse]
    exact any_head?_dropWhile_isBlank _

theorem trimEnd_of_getLast? (hlast : cs.getLast?.any isBlank = false) : trimEnd cs = cs := by
  have hreverse : cs.reverse.dropWhile isBlank = cs.reverse := by
    cases hcs : cs.reverse with
    | nil => rfl
    | cons d ds =>
        rw [← List.head?_reverse, hcs] at hlast
        exact List.dropWhile_cons_of_neg (by simpa using hlast)
  rw [trimEnd, dropEndWhile, hreverse, List.reverse_reverse]

theorem trimEnd_cons (c : Char) (cs : List Char) :
    trimEnd (c :: cs) = if isBlank c = true ∧ trimEnd cs = [] then [] else c :: trimEnd cs := by
  rw [trimEnd, trimEnd, dropEndWhile, dropEndWhile, List.reverse_cons, List.dropWhile_append]
  cases hblank : isBlank c <;> cases hrest : cs.reverse.dropWhile isBlank <;> simp [hblank]

theorem trimEnd_trimEnd (cs : List Char) : trimEnd (trimEnd cs) = trimEnd cs := by
  apply trimEnd_of_getLast?
  rw [trimEnd, dropEndWhile, List.getLast?_reverse]
  exact any_head?_dropWhile_isBlank _

theorem trim_trimEnd (cs : List Char) : trim (trimEnd cs) = trim cs := by
  induction cs with
  | nil => rfl
  | cons c cs ih =>
      cases hblank : isBlank c with
      | false =>
          have hkept : trimEnd (c :: cs) = c :: trimEnd cs := by
            rw [trimEnd_cons, if_neg (by simp [hblank])]
          have hstart : trimStart (trimEnd (c :: cs)) = trimEnd (c :: cs) := by
            rw [hkept, trimStart_of_head? hblank]
          rw [trim, hstart, trimEnd_trimEnd, trim, trimStart_of_head? hblank]
      | true =>
          rw [trim_cons hblank, ← ih, trimEnd_cons]
          split
          · rename_i hempty
            rw [hempty.2]
          · exact trim_cons hblank _

/-- Behind a text without blanks only the blanks at the end are dropped. -/
theorem trimEnd_append {a : List Char} (ha : ∀ c ∈ a, isBlank c = false) (b : List Char) :
    trimEnd (a ++ b) = a ++ trimEnd b := by
  induction a with
  | nil => rfl
  | cons c a ih =>
      have hc : isBlank c = false := ha c (by simp)
      rw [List.cons_append, trimEnd_cons, if_neg (by simp [hc]),
        ih fun d hd => ha d (List.mem_cons_of_mem c hd), List.cons_append]

/-- Blanks are left out in front of a text that ends with another character, and nothing more. -/
theorem exists_trimStart_append (hne : cs ≠ []) (hlast : cs.getLast?.any isBlank = false)
    (rest : List Char) : ∃ z, z ≠ [] ∧ z <:+ cs ∧ trimStart (cs ++ rest) = z ++ rest := by
  induction cs with
  | nil => exact absurd rfl hne
  | cons c cs ih =>
      cases hblank : isBlank c with
      | false => exact ⟨c :: cs, by simp, List.suffix_refl _, trimStart_of_head? hblank _⟩
      | true =>
          have hmore : cs ≠ [] := by
            rintro rfl
            simp [hblank] at hlast
          obtain ⟨d, ds, rfl⟩ := List.exists_cons_of_ne_nil hmore
          obtain ⟨z, hz, hsuffix, htrim⟩ := ih hmore (by simpa using hlast)
          exact ⟨z, hz, hsuffix.trans (List.suffix_cons c _), (trimStart_cons hblank _).trans htrim⟩

end Text

namespace Condition

/-! ### Comparisons -/

section

variable {cs rest value column : List Char} {op : Comparison} {c : Char}

theorem comparisonAt?_of_operatorAt? (h : operatorAt? (Text.trimStart cs) = some (op, rest)) :
    comparisonAt? cs = if '\n' ∈ Text.trim rest then none else some (op, Text.trim rest) := by
  by_cases hline : '\n' ∈ Text.trim rest <;> simp [comparisonAt?, h, guard, hline]

/-- What stands behind a comparison is the value. -/
theorem operatorAt?_of_comparisonAt? (h : comparisonAt? cs = some (op, value)) :
    ∃ rest, operatorAt? (Text.trimStart cs) = some (op, rest) ∧ value = Text.trim rest ∧
      '\n' ∉ value := by
  cases hop : operatorAt? (Text.trimStart cs) with
  | none => simp [comparisonAt?, hop] at h
  | some found =>
      obtain ⟨found, rest⟩ := found
      rw [comparisonAt?_of_operatorAt? hop] at h
      split at h
      · cases h
      · obtain ⟨rfl, rfl⟩ := Prod.mk.inj (Option.some.inj h)
        exact ⟨rest, rfl, rfl, ‹_›⟩

theorem comparisonAt?_cons_of_isBlank (hc : Text.isBlank c = true) (cs : List Char) :
    comparisonAt? (c :: cs) = comparisonAt? cs := by
  rw [comparisonAt?, Text.trimStart_cons hc, comparisonAt?]

theorem isBlank_of_isSign (hc : isSign c = true) : Text.isBlank c = false := by
  simp only [isSign, Bool.or_eq_true, decide_eq_true_eq] at hc
  obtain (rfl | rfl) | rfl := hc <;> decide

/-- A comparison starts at every sign. -/
theorem isSome_operatorAt? (hc : isSign c = true) (cs : List Char) :
    (operatorAt? (c :: cs)).isSome = true := by
  unfold operatorAt?
  split <;> simp_all [isSign]

theorem eq_append_of_operatorAt? (h : operatorAt? cs = some (op, rest)) :
    ∃ spelling, cs = spelling ++ rest ∧ Comparison.ofText? spelling = some op := by
  unfold operatorAt? at h
  split at h <;> cases h
  case h_1 => exact ⟨['>', '='], rfl, rfl⟩
  case h_2 => exact ⟨['<', '='], rfl, rfl⟩
  case h_3 => exact ⟨['!', '='], rfl, rfl⟩
  case h_4 => exact ⟨['<', '>'], rfl, rfl⟩
  case h_5 => exact ⟨['=', '='], rfl, rfl⟩
  case h_6 => exact ⟨['='], rfl, rfl⟩
  case h_7 => exact ⟨['>'], rfl, rfl⟩
  case h_8 => exact ⟨['<'], rfl, rfl⟩

/-- A comparison that starts before a blank ends before it. -/
theorem operatorAt?_before (h : operatorAt? (cs ++ ' ' :: rest) = some (op, value)) :
    ∃ y, value = y ++ ' ' :: rest := by
  obtain ⟨spelling, happend, hop⟩ := eq_append_of_operatorAt? h
  rcases List.append_eq_append_iff.1 happend with ⟨y, hspelling, hrest⟩ | ⟨y, -, hvalue⟩
  · cases y with
    | nil => exact ⟨[], hrest.symm⟩
    | cons d y =>
        -- No spelling has a blank in it.
        have hd : ' ' ∈ spelling := by
          rw [hspelling, (List.cons.inj hrest).1]
          simp
        exact absurd (isOperatorChar_of_ofText? hop ' ' hd) (by decide)
  · exact ⟨y, hvalue⟩

/-- A comparison is passed over only in front of a line feed. -/
theorem line_of_comparisonAt?_eq_none (hc : isSign c = true) (h : comparisonAt? (c :: cs) = none) :
    '\n' ∈ cs := by
  have hblank := isBlank_of_isSign hc
  obtain ⟨⟨op, rest⟩, hop⟩ := Option.isSome_iff_exists.1 (isSome_operatorAt? hc cs)
  rw [← Text.trimStart_of_head? hblank] at hop
  rw [comparisonAt?_of_operatorAt? hop] at h
  split at h
  · rename_i hline
    rw [Text.trimStart_of_head? hblank] at hop
    obtain ⟨spelling, hcs, -⟩ := eq_append_of_operatorAt? hop
    have hmem : '\n' ∈ c :: cs := by
      rw [hcs]
      exact List.mem_append_right spelling (Text.mem_of_mem_trim hline)
    refine (List.mem_cons.1 hmem).resolve_left ?_
    rintro rfl
    cases hc
  · cases h

/-! ### The cut -/

theorem split?_cons_eq_some (h : split? (c :: cs) = some (column, op, value)) :
    c ≠ '\n' ∧ (column = [c] ∧ comparisonAt? cs = some (op, value) ∨
      ∃ more, column = c :: more ∧ comparisonAt? cs = none ∧
        split? cs = some (more, op, value)) := by
  rw [split?] at h
  split at h
  · cases h
  refine ⟨‹_›, ?_⟩
  split at h
  · cases h
    exact .inl ⟨rfl, ‹_›⟩
  · obtain ⟨⟨more, found⟩, hsplit, hmore⟩ := Option.map_eq_some_iff.1 h
    cases hmore
    exact .inr ⟨more, rfl, ‹_›, hsplit⟩

/-- The column starts where the text does. -/
theorem split?_head? (h : split? cs = some (column, op, value)) :
    ∃ c more rest, column = c :: more ∧ cs = c :: rest := by
  cases cs with
  | nil => cases h
  | cons c cs =>
      obtain ⟨-, ⟨rfl, -⟩ | ⟨more, rfl, -⟩⟩ := split?_cons_eq_some h
      · exact ⟨c, [], cs, rfl, rfl⟩
      · exact ⟨c, more, cs, rfl, rfl⟩

/-- What a cut leaves for the column and the value. -/
structure Cut (column value : List Char) : Prop where
  line : '\n' ∉ column
  last : column.tail.getLast?.any Text.isBlank = false
  valueTrimmed : Text.trim value = value
  valueLine : '\n' ∉ value

theorem cut_of_split? (h : split? cs = some (column, op, value)) : Cut column value := by
  induction cs generalizing column with
  | nil => cases h
  | cons c cs ih =>
      obtain ⟨hc, ⟨rfl, hfound⟩ | ⟨more, rfl, hnone, hsplit⟩⟩ := split?_cons_eq_some h
      · obtain ⟨rest, -, rfl, hline⟩ := operatorAt?_of_comparisonAt? hfound
        exact ⟨by simpa using Ne.symm hc, rfl, Text.trim_trim rest, hline⟩
      · obtain ⟨hline, hlast, htrim, hvalue⟩ := ih hsplit
        refine ⟨by simp [hline, Ne.symm hc], ?_, htrim, hvalue⟩
        obtain ⟨d, more, rest, rfl, rfl⟩ := split?_head? hsplit
        cases more with
        | cons e more => simpa using hlast
        | nil =>
            -- A blank in front of the comparison would have been skipped one step before.
            obtain ⟨-, ⟨-, hfound⟩ | ⟨more, hmore, -, hsplit⟩⟩ := split?_cons_eq_some hsplit
            · cases hd : Text.isBlank d with
              | false => simp [hd]
              | true =>
                  rw [comparisonAt?_cons_of_isBlank hd, hfound] at hnone
                  cases hnone
            · obtain ⟨e, more', -, rfl, -⟩ := split?_head? hsplit
              cases hmore

/-- Blanks are left out only if there is a cut behind them. -/
theorem parts?_cons_of_isBlank (hc : Text.isBlank c = true) (cs : List Char) :
    parts? (c :: cs) = (parts? cs).or (split? (c :: cs)) := by
  have hblanks : (c :: cs).takeWhile Text.isBlank = c :: cs.takeWhile Text.isBlank :=
    List.takeWhile_cons_of_pos hc
  simp only [parts?, hblanks, List.length_cons]
  rw [List.range_succ_eq_map, List.reverse_cons, List.findSome?_append, ← List.map_reverse,
    List.findSome?_map]
  simp [Function.comp_def]

theorem split?_eq_none_of_parts? (h : parts? cs = none) : split? cs = none := by
  cases cs with
  | nil => rfl
  | cons c cs =>
      cases hc : Text.isBlank c with
      | false => rwa [parts?_of_head? hc] at h
      | true =>
          rw [parts?_cons_of_isBlank hc, Option.or_eq_none_iff] at h
          exact h.2

/-- The column of a condition is trimmed, or it is one blank. -/
theorem cut_of_parts? (h : parts? cs = some (column, op, value)) :
    Cut column value ∧ (column ≠ [] ∧ Text.trim column = column ∨
      ∃ b, Text.isBlank b = true ∧ column = [b]) := by
  induction cs with
  | nil => cases h
  | cons c cs ih =>
      cases hc : Text.isBlank c with
      | false =>
          rw [parts?_of_head? hc] at h
          have hcut := cut_of_split? h
          obtain ⟨d, more, rest, rfl, hcons⟩ := split?_head? h
          obtain rfl : c = d := (List.cons.inj hcons).1
          refine ⟨hcut, .inl ⟨by simp, Text.trim_eq_self (by simpa using hc) ?_⟩⟩
          cases more with
          | nil => simpa using hc
          | cons e more => simpa using hcut.last
      | true =>
          rw [parts?_cons_of_isBlank hc] at h
          rcases Option.or_eq_some_iff.1 h with hparts | ⟨hnone, hsplit⟩
          · exact ih hparts
          · obtain ⟨-, ⟨rfl, -⟩ | ⟨more, rfl, -, hmore⟩⟩ := split?_cons_eq_some hsplit
            · exact ⟨cut_of_split? hsplit, .inr ⟨c, hc, rfl⟩⟩
            · rw [split?_eq_none_of_parts? hnone] at hmore
              cases hmore

/-! ### Signs in the column -/

/-- A text with a sign or a line feed in its column is cut within the column, if at all. -/
theorem split?_inside {found : Comparison} {column' value' : List Char}
    (hlast : column.getLast?.any Text.isBlank = false)
    (hbad : '\n' ∈ c :: column ∨ ∃ d ∈ column, isSign d = true) (hrest : '\n' ∉ rest)
    (h : split? (c :: column ++ ' ' :: rest) = some (column', found, value')) :
    ∃ y, value' = Text.trim (y ++ ' ' :: rest) := by
  induction column generalizing c column' with
  | nil =>
      rw [List.cons_append] at h
      obtain ⟨hc, -⟩ := split?_cons_eq_some h
      rcases hbad with hc' | ⟨d, hd, -⟩
      · exact absurd (List.mem_singleton.1 hc').symm hc
      · cases hd
  | cons d column ih =>
      rw [List.cons_append] at h
      obtain ⟨hc, ⟨-, hfound⟩ | ⟨more, -, hnone, hsplit⟩⟩ := split?_cons_eq_some h
      · obtain ⟨behind, hop, rfl, -⟩ := operatorAt?_of_comparisonAt? hfound
        obtain ⟨z, -, -, htrim⟩ := Text.exists_trimStart_append (by simp) hlast (' ' :: rest)
        rw [htrim] at hop
        obtain ⟨y, rfl⟩ := operatorAt?_before hop
        exact ⟨y, rfl⟩
      · refine ih ?_ ?_ hsplit
        · cases column with
          | nil => rfl
          | cons e column => simpa using hlast
        rcases hbad with hline | ⟨e, he, hsign⟩
        · exact .inl ((List.mem_cons.1 hline).resolve_left (Ne.symm hc))
        rcases List.mem_cons.1 he with rfl | he
        · -- The comparison at this sign was passed over.
          rcases List.mem_append.1 (line_of_comparisonAt?_eq_none hsign hnone) with hline | hline
          · exact .inl (List.mem_cons_of_mem e hline)
          · rcases List.mem_cons.1 hline with hblank | hline
            · cases hblank
            · exact absurd hline hrest
        · exact .inr ⟨e, he, hsign⟩

/-- Every spelling of a comparison ends with a sign. -/
theorem getLast?_of_ofText? {spelling : List Char} (h : Comparison.ofText? spelling = some op) :
    ∃ sign, spelling.getLast? = some sign ∧ isSign sign = true := by
  unfold Comparison.ofText? at h
  split at h
  case h_9 => cases h
  all_goals exact ⟨_, rfl, by decide⟩

theorem line_of_ofText? {spelling : List Char} (hop : Comparison.ofText? spelling = some op)
    (hvalue : OneLine value) : '\n' ∉ spelling ++ ' ' :: value := by
  intro hmem
  rcases List.mem_append.1 hmem with hmem | hmem
  · exact absurd (isOperatorChar_of_ofText? hop _ hmem) (by decide)
  · exact absurd hmem (by simp [hvalue.line])

/-- Behind a column that is not legible, the value that is found has the comparison in it. -/
theorem parts?_of_not_legible {spelling column' value' : List Char} {found : Comparison}
    (hne : column ≠ []) (htrim : Text.trim column = column) (hcolumn : ¬Legible column)
    (hop : Comparison.ofText? spelling = some op) (hvalue : OneLine value)
    (h : parts? (column ++ ' ' :: (spelling ++ ' ' :: value)) = some (column', found, value')) :
    ∃ z sign, z.getLast? = some sign ∧ isSign sign = true ∧ value' = z ++ ' ' :: value := by
  obtain ⟨hhead, hlast⟩ := Text.ends_of_trim htrim
  obtain ⟨sign, hsign, hisSign⟩ := getLast?_of_ofText? hop
  obtain ⟨c, tail, rfl⟩ := List.exists_cons_of_ne_nil hne
  have hbad : '\n' ∈ c :: tail ∨ ∃ d ∈ tail, isSign d = true := by
    by_cases hline : '\n' ∈ c :: tail
    · exact .inl hline
    · refine .inr (Classical.byContradiction fun hsigns => hcolumn ⟨hne, htrim, hline, ?_⟩)
      intro d hd
      cases hd' : isSign d with
      | false => rfl
      | true => exact absurd ⟨d, hd, hd'⟩ hsigns
  have hline := line_of_ofText? hop hvalue
  have htail : tail.getLast?.any Text.isBlank = false := by
    cases tail with
    | nil => rfl
    | cons d tail => simpa using hlast
  rw [List.cons_append, parts?_of_head? (by simpa using hhead)] at h
  obtain ⟨y, rfl⟩ := split?_inside htail hbad hline h
  -- The blanks that are trimmed away stand before the comparison.
  have hend : (y ++ ' ' :: spelling).getLast? = some sign := by
    rw [List.getLast?_append, List.getLast?_cons, hsign]
    rfl
  have hbefore : y ++ ' ' :: spelling ≠ [] := by simp
  obtain ⟨z, hz, hsuffix, hstart⟩ := Text.exists_trimStart_append hbefore
    (by simp [hend, isBlank_of_isSign hisSign]) (' ' :: value)
  have hvalueLast := (Text.ends_of_trim hvalue.trimmed).2
  refine ⟨z, sign, ?_, hisSign, ?_⟩
  · obtain ⟨before, hbefore⟩ := hsuffix
    rw [← hbefore, List.getLast?_append_of_ne_nil _ hz] at hend
    exact hend
  · have happend : y ++ ' ' :: (spelling ++ ' ' :: value) =
        (y ++ ' ' :: spelling) ++ ' ' :: value := by simp
    rw [Text.trim, happend, hstart, Text.trimEnd_of_getLast?]
    rw [List.getLast?_append_of_ne_nil _ (by simp), ← List.singleton_append,
      List.getLast?_append_of_ne_nil _ hvalue.ne_nil]
    exact hvalueLast

/-! ### A blank for the column -/

theorem comparisonAt?_of_no_signs (h : ∀ d ∈ cs, isSign d = false) : comparisonAt? cs = none := by
  cases hfound : comparisonAt? cs with
  | none => rfl
  | some found =>
      obtain ⟨rest, hop, -⟩ := operatorAt?_of_comparisonAt? hfound
      obtain ⟨spelling, hcs, hspelling⟩ := eq_append_of_operatorAt? hop
      obtain ⟨sign, hlast, hsign⟩ := getLast?_of_ofText? hspelling
      have hmem : sign ∈ Text.trimStart cs := by
        rw [hcs]
        exact List.mem_append_left rest (List.mem_of_getLast? hlast)
      rw [h sign ((Text.trimStart_suffix cs).subset hmem)] at hsign
      cases hsign

/-- On one line there is no cut just when there are no signs behind the first character. -/
theorem split?_eq_none_iff (hline : '\n' ∉ c :: cs) :
    split? (c :: cs) = none ↔ ∀ d ∈ (c :: cs).tail, isSign d = false := by
  rw [List.tail_cons]
  have hc : c ≠ '\n' := fun hc => hline (by simp [hc])
  rw [split?, if_neg hc]
  induction cs generalizing c with
  | nil => simp [comparisonAt?_of_no_signs, split?]
  | cons d cs ih =>
      have hmore : '\n' ∉ d :: cs := fun h => hline (List.mem_cons_of_mem c h)
      have hd : d ≠ '\n' := fun hd => hmore (by simp [hd])
      constructor
      · intro hnone
        cases hfound : comparisonAt? (d :: cs) with
        | some found => simp [hfound] at hnone
        | none =>
            rw [hfound, Option.map_eq_none_iff, split?, if_neg hd] at hnone
            have hsign : isSign d = false := by
              cases hsign : isSign d with
              | false => rfl
              | true =>
                  exact absurd (line_of_comparisonAt?_eq_none hsign hfound)
                    fun h => hmore (List.mem_cons_of_mem d h)
            intro e he
            rcases List.mem_cons.1 he with rfl | he
            · exact hsign
            · exact (ih hmore hd).1 hnone e he
      · intro hsigns
        rw [comparisonAt?_of_no_signs hsigns, split?, if_neg hd,
          (ih hmore hd).2 fun e he => hsigns e (List.mem_cons_of_mem d he)]
        rfl

/-- Behind a blank for the column, the blank in front of the comparison is found, unless there is a
cut behind it. -/
theorem parts?_of_blank {b : Char} {spelling : List Char} (hb : Text.isBlank b = true)
    (hop : Comparison.ofText? spelling = some op) (hvalue : OneLine value) :
    parts? (b :: ' ' :: (spelling ++ ' ' :: value)) =
        some ((split? (spelling ++ ' ' :: value)).getD ([' '], op, value)) ∧
      (split? (spelling ++ ' ' :: value) = none ↔
        ∀ d ∈ (spelling ++ ' ' :: value).tail, isSign d = false) := by
  obtain ⟨d, rest, hspelling, hd⟩ := isBlank_of_ofText? hop
  have hfound : comparisonAt? (spelling ++ ' ' :: value) = some (op, value) := by
    have hspaced := comparisonAt?_spaced hop hvalue
    rwa [comparisonAt?_cons_of_isBlank (by decide)] at hspaced
  have hblank : split? (' ' :: (spelling ++ ' ' :: value)) = some ([' '], op, value) := by
    rw [split?, if_neg (by decide), hfound]
  have hparts : parts? (spelling ++ ' ' :: value) = split? (spelling ++ ' ' :: value) := by
    rw [hspelling, List.cons_append, parts?_of_head? hd]
  constructor
  · rw [parts?_cons_of_isBlank hb, parts?_cons_of_isBlank (by decide), hblank, hparts]
    cases split? (spelling ++ ' ' :: value) <;> rfl
  · have hline := line_of_ofText? hop hvalue
    rw [hspelling, List.cons_append] at hline ⊢
    exact split?_eq_none_iff hline

end

/-! ### The column and the value -/

/-- A reference is resolved to one of the names, or it is left as it stands. -/
theorem columnOf_mem_or (schema : Schema) (cs : List Char) :
    columnOf schema cs ∈ schema.names ∨ columnOf schema cs = .ofList cs := by
  have hname : ∀ letters name, schema.nameAt? letters = some name → name ∈ schema.names := by
    intro letters name h
    obtain ⟨i, -, hi⟩ := Option.bind_eq_some_iff.1 h
    exact List.mem_of_getElem? hi
  rw [columnOf]
  split
  · exact .inr rfl
  · cases hranges : (rangeLetters? cs).bind schema.nameAt? with
    | some name =>
        obtain ⟨letters, -, hletters⟩ := Option.bind_eq_some_iff.1 hranges
        exact .inl (hname letters name hletters)
    | none =>
        cases hletters : if cs.all Formula.isCapital then schema.nameAt? cs else none with
        | none => exact .inr rfl
        | some name =>
            split at hletters
            · exact .inl (hname cs name hletters)
            · cases hletters

theorem columnOf_columnOf (schema : Schema) (cs : List Char) :
    columnOf schema (columnOf schema cs).toList = columnOf schema cs := by
  rcases columnOf_mem_or schema cs with hmem | hsame
  · exact columnOf_of_contains (by simpa [Schema.contains] using hmem)
  · rw [hsame, String.toList_ofList, hsame]

/-- The parts that a condition is read from. -/
theorem parts?_of_read {schema : Schema} {text : String} {c : Condition}
    (h : read schema text = .ok c) : ∃ column value,
      parts? text.toList = some (column, c.op, value) ∧ value ≠ [] ∧
        c.column = columnOf schema column ∧ c.value = readValue value := by
  unfold read at h
  split at h
  · cases h
  · split at h
    · cases h
    · rename_i column op value hparts hvalue
      cases h
      exact ⟨column, value, hparts, by simpa using hvalue, rfl, rfl⟩

end Condition

end SheetBoard
