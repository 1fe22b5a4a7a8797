import SheetBoard.Dashboard.Board
import SheetBoard.Proofs.Condition.Counting
import SheetBoard.Proofs.Condition.Reading
import SheetBoard.Proofs.Formula.Quoting
import SheetBoard.Proofs.Naming
import SheetBoard.Proofs.Number.ReadBack

/-! Conditions that are printed and read again. Values survive, but for the sign of zero. The name
of the column is printed as it stands, and so it survives only if it is legible. -/

namespace SheetBoard

open SheetBoard.Formula (escape quote)

/-! ### The characters of a number -/

namespace Number

/-- The characters besides digits that numbers are made of, in lower case. -/
def marks : List Char := ['+', '-', '.', 'e', 'i', 'n', 'f', 't', 'y', 'a']

/-- A character that can stand in a number. -/
def Occurs (c : Char) : Prop := isDigit c = true ∨ c.toLower ∈ marks

section

variable {cs : List Char} {c : Char}

theorem occurs_of_splitSign (h : ∀ c ∈ (splitSign cs).2, Occurs c) : ∀ c ∈ cs, Occurs c := by
  unfold splitSign at h
  split at h
  · exact List.forall_mem_cons.2 ⟨.inr (by decide), h⟩
  · exact List.forall_mem_cons.2 ⟨.inr (by decide), h⟩
  · exact h

theorem occurs_of_readWord? {x : Float} (h : readWord? cs = some x) : ∀ c ∈ cs, Occurs c := by
  have hword : ∃ w : String, cs.map Char.toLower = w.toList ∧ ∀ d ∈ w.toList, d ∈ marks := by
    unfold readWord? at h
    split at h
    case h_4 => cases h
    all_goals
      rename_i hw
      exact ⟨_, by rw [← String.toList_ofList (l := cs.map Char.toLower), hw], by decide⟩
  obtain ⟨w, hw, hmarks⟩ := hword
  intro c hc
  exact .inr (hmarks _ (hw ▸ List.mem_map_of_mem hc))

theorem occurs_of_readExponent? {e : Int} (h : readExponent? cs = some e) :
    ∀ c ∈ cs, Occurs c := by
  cases cs with
  | nil => simp
  | cons c cs =>
      rw [readExponent?] at h
      split at h
      · rename_i hc
        refine List.forall_mem_cons.2 ⟨.inr ?_, occurs_of_splitSign ?_⟩
        · simp only [Bool.or_eq_true, decide_eq_true_eq] at hc
          obtain rfl | rfl := hc <;> decide
        · split at h
          rename_i negative digits hsplit
          split at h
          · cases h
          · rename_i hdigits
            simp only [Bool.or_eq_true, not_or, Bool.not_eq_true', Bool.not_eq_false] at hdigits
            rw [hsplit]
            exact fun d hd => .inl (List.all_eq_true.1 hdigits.2 d hd)
      · cases h

theorem occurs_of_readDecimal? {x : Float} (h : readDecimal? cs = some x) :
    ∀ c ∈ cs, Occurs c := by
  have hdigits : ∀ ds : List Char, ∀ d ∈ ds.takeWhile isDigit, Occurs d :=
    fun ds d hd => .inl (List.all_eq_true.1 List.all_takeWhile d hd)
  rw [← List.takeWhile_append_dropWhile (p := isDigit) (l := cs)]
  refine List.forall_mem_append.2 ⟨hdigits cs, ?_⟩
  simp only [readDecimal?] at h
  split at h
  · rename_i tail hrest
    split at h
    · cases h
    · obtain ⟨e, he, -⟩ := Option.map_eq_some_iff.1 h
      rw [hrest, ← List.takeWhile_append_dropWhile (p := isDigit) (l := tail)]
      refine List.forall_mem_cons.2 ⟨.inr (by decide), ?_⟩
      exact List.forall_mem_append.2 ⟨hdigits tail, occurs_of_readExponent? he⟩
  · split at h
    · cases h
    · obtain ⟨e, he, -⟩ := Option.map_eq_some_iff.1 h
      exact occurs_of_readExponent? he

/-- A text that reads as a number is made of the characters of numbers. -/
theorem occurs_of_read? {x : Float} (h : read? cs = some x) : ∀ c ∈ cs, Occurs c := by
  simp only [read?] at h
  obtain ⟨y, hbody, -⟩ := Option.map_eq_some_iff.1 h
  apply occurs_of_splitSign
  cases hword : readWord? (splitSign cs).2 with
  | some w => exact occurs_of_readWord? hword
  | none =>
      rw [hword] at hbody
      exact occurs_of_readDecimal? hbody

theorem Occurs.isSign_eq_false (h : Occurs c) : Condition.isSign c = false := by
  cases hc : Condition.isSign c with
  | false => rfl
  | true =>
      simp only [Condition.isSign, Bool.or_eq_true, decide_eq_true_eq] at hc
      obtain (rfl | rfl) | rfl := hc <;> exact absurd h (by unfold Occurs; decide)

theorem Occurs.isOperatorChar_eq_false (h : Occurs c) : Criterion.isOperatorChar c = false := by
  cases hc : Criterion.isOperatorChar c with
  | false => rfl
  | true =>
      simp only [Criterion.isOperatorChar, Bool.or_eq_true, decide_eq_true_eq] at hc
      obtain ((rfl | rfl) | rfl) | rfl := hc <;> exact absurd h (by unfold Occurs; decide)

theorem Occurs.isBlank_eq_false (h : Occurs c) : Text.isBlank c = false := by
  cases hc : Text.isBlank c with
  | false => rfl
  | true =>
      have hrange : c.toNat ≤ 32 ∨ 133 ≤ c.toNat := by
        simp [Text.isBlank, Text.inRanges, Text.blankRanges] at hc
        omega
      rcases h with hdigit | hmark
      · obtain ⟨hlow, hhigh⟩ := Bool.and_eq_true_iff.1 hdigit
        have hlow : '0'.toNat ≤ c.toNat := of_decide_eq_true hlow
        have hhigh : c.toNat ≤ '9'.toNat := of_decide_eq_true hhigh
        have hdigits : '0'.toNat = 48 ∧ '9'.toNat = 57 := by decide
        omega
      · have hlower : c.toLower = c := by
          unfold Char.toLower
          split
          · rename_i hupper
            have hcapital : 65 ≤ c.toNat ∧ c.toNat ≤ 90 := hupper
            omega
          · rfl
        have hmarks : ∀ d ∈ marks, Text.isBlank d = false := by decide
        rw [hmarks c (hlower ▸ hmark)] at hc
        cases hc

end

end Number

/-! ### Escapes -/

namespace Condition

theorem unescape_slash (c : Char) (cs : List Char) :
    unescape ('\\' :: c :: cs) = c :: unescape cs := by
  simp [unescape]

theorem unescape_cons {c : Char} (hc : c ≠ '\\') (cs : List Char) :
    unescape (c :: cs) = c :: unescape cs := by
  cases cs <;> simp [unescape, hc]

theorem unescape_escape (cs : List Char) : unescape (escape cs) = cs := by
  induction cs with
  | nil => rfl
  | cons c cs ih =>
      rw [Formula.escape_cons]
      split
      · exact (unescape_slash c _).trans (congrArg (c :: ·) ih)
      · rename_i hc
        simp only [Bool.or_eq_true, decide_eq_true_eq, not_or] at hc
        exact (unescape_cons hc.2 _).trans (congrArg (c :: ·) ih)

theorem length_le_length_escape (cs : List Char) : cs.length ≤ (escape cs).length := by
  induction cs with
  | nil => exact Nat.le_refl 0
  | cons c cs ih =>
      rw [Formula.escape_cons, List.length_append, List.length_cons]
      split <;> simp <;> omega

/-- Escapes do not reach over a character that is no backslash. -/
theorem unescape_append {a : List Char} {c : Char} (hlast : a.getLast? = some c) (hc : c ≠ '\\')
    (b : List Char) : unescape (a ++ b) = unescape a ++ unescape b := by
  fun_induction unescape a with
  | case1 => cases hlast
  | case2 d =>
      obtain rfl : d = c := by simpa using hlast
      exact unescape_cons hc b
  | case3 d rest ih =>
      rw [List.cons_append, List.cons_append, unescape_slash]
      cases rest with
      | nil => rfl
      | cons e rest => rw [ih (by simpa using hlast), List.cons_append]
  | case4 e d rest he ih =>
      rw [List.cons_append, unescape_cons he, ih (by simpa using hlast), List.cons_append]

theorem mem_of_mem_unescape {c : Char} {cs : List Char} (h : c ∈ unescape cs) : c ∈ cs := by
  fun_induction unescape cs <;> grind

/-! ### Values -/

end Condition

/-- Zero without its sign, and any other value as it is. -/
def Cell.plainZero : Cell → Cell
  | .number x => .number (Number.plainZero x)
  | c => c

namespace Condition

/-- The values that conditions are read with. -/
inductive Given : Cell → Prop where
  | text {s : String} (line : '\n' ∉ s.toList) : Given (.text s)
  | boolean (b : Bool) : Given (.boolean b)
  | number {x : Float} (nan : x.isNaN = false) : Given (.number x)

theorem given_detect {cs : List Char} (h : OneLine cs) : Given (Cell.detect cs) := by
  have htext : Given (.text (.ofList cs)) := .text (by simpa using h.line)
  rw [detect_of_trimmed h.ne_nil h.trimmed]
  split
  · exact .boolean true
  split
  · exact .boolean false
  split
  · rename_i x hx
    split
    · exact htext
    · rename_i hnan
      exact .number (Bool.not_eq_true _ ▸ hnan)
  · exact htext

theorem given_readValue {cs : List Char} (h : OneLine cs) : Given (readValue cs) := by
  have hdetect := given_detect h
  unfold readValue
  split
  · rename_i rest
    split
    · refine .text fun hline => h.line ?_
      have hrest : '\n' ∈ rest.dropLast := mem_of_mem_unescape (by simpa using hline)
      exact List.mem_cons_of_mem _ (List.mem_of_mem_dropLast hrest)
    · exact hdetect
  · split
    · rename_i hempty
      rw [hempty] at hdetect
      cases hdetect
    · exact hdetect

/-- The value in the text of a condition. -/
def printed : Cell → List Char
  | .text s => quote s.toList
  | .number x => (Number.display x).toList
  | .boolean b => if b then "true".toList else "false".toList
  | .empty => ['"', '"']

theorem toList_display (c : Condition) : c.display.toList =
    c.column.toList ++ ' ' :: (c.op.spelling.toList ++ ' ' :: printed c.value) := by
  obtain ⟨column, op, value⟩ := c
  cases value <;> simp [display, printed]

theorem ofText?_spelling (op : Comparison) :
    Comparison.ofText? op.spelling.toList = some op := by
  cases op <;> rfl

theorem oneLine_of_not_isBlank {cs : List Char} (hne : cs ≠ [])
    (h : ∀ c ∈ cs, Text.isBlank c = false) : OneLine cs := by
  refine ⟨hne, Text.trim_eq_self ?_ ?_, fun hline => ?_⟩
  · cases hhead : cs.head? with
    | none => rfl
    | some c => exact h c (List.mem_of_head? hhead)
  · cases hlast : cs.getLast? with
    | none => rfl
    | some c => exact h c (List.mem_of_getLast? hlast)
  · have hblank := h _ hline
    cases hblank

theorem mem_of_mem_escape {c : Char} (hc : c ≠ '\\') {cs : List Char} (h : c ∈ escape cs) :
    c ∈ cs := by
  obtain ⟨d, hd, hcd⟩ := List.mem_flatMap.1 h
  split at hcd
  · obtain rfl : c = d := by simpa [hc] using hcd
    exact hd
  · obtain rfl : c = d := by simpa using hcd
    exact hd

theorem oneLine_quote {cs : List Char} (h : '\n' ∉ cs) : OneLine (quote cs) := by
  refine ⟨by simp [quote], Text.trim_eq_self rfl ?_, fun hline => h ?_⟩
  · rw [quote, List.getLast?_concat]
    rfl
  · have hmem : '\n' ∈ escape cs := by simpa [quote] using hline
    exact mem_of_mem_escape (by decide) hmem

/-- A number is printed without blanks and without signs. -/
theorem occurs_display {x : Float} (hx : x.isNaN = false) :
    (Number.display x).toList ≠ [] ∧ ∀ c ∈ (Number.display x).toList, Number.Occurs c := by
  have hread := (Number.read?_display_of_isNaN hx).1
  refine ⟨fun hnil => ?_, Number.occurs_of_read? hread⟩
  rw [hnil] at hread
  cases hread

theorem oneLine_printed {v : Cell} (h : Given v) : OneLine (printed v) := by
  cases h with
  | text line => exact oneLine_quote line
  | boolean b => cases b <;> exact oneLine_of_not_isBlank (by decide) (by decide)
  | number nan =>
      obtain ⟨hne, hoccurs⟩ := occurs_display nan
      exact oneLine_of_not_isBlank hne fun c hc => (hoccurs c hc).isBlank_eq_false

/-- A printed number is a bare token. -/
theorem bareToken_display {x : Float} (hx : x.isNaN = false) :
    BareToken (Number.display x).toList := by
  have hline := oneLine_printed (.number hx)
  obtain ⟨hne, hoccurs⟩ := occurs_display hx
  obtain ⟨c, rest, hcons⟩ := List.exists_cons_of_ne_nil hne
  have hc : Number.Occurs c := hoccurs c (by simp [hcons])
  refine ⟨hline, ?_, ?_⟩
  · rw [hcons]
    rintro ⟨⟩
    exact absurd hc (by unfold Number.Occurs; decide)
  · rw [hcons]
    exact hc.isOperatorChar_eq_false

theorem detect_of_read? {cs : List Char} (h : OneLine cs) {x : Float}
    (hread : Number.read? cs = some x) (hx : x.isNaN = false) : Cell.detect cs = .number x := by
  obtain ⟨htrue, hfalse⟩ := Number.not_truthWord_of_read? hread
  simp only [detect_of_trimmed h.ne_nil h.trimmed, htrue, hfalse, hread, hx, Bool.false_eq_true,
    if_false]

theorem readValue_quote (s : String) : readValue (quote s.toList) = .text s := by
  have hlast : (escape s.toList ++ ['"']).getLast? = some '"' := List.getLast?_concat
  simp only [quote, List.cons_append, readValue, hlast, if_true]
  rw [List.dropLast_concat, unescape_escape, String.ofList_toList]

/-- The value of a printed condition is read back. -/
theorem readValue_printed {v : Cell} (h : Given v) : readValue (printed v) = v.plainZero := by
  cases h with
  | @text s line => exact readValue_quote s
  | boolean b => cases b <;> decide +kernel
  | number nan =>
      have hbare := bareToken_display nan
      have hread := (Number.read?_display_of_isNaN nan).1
      exact (readValue_bare hbare).trans
        (detect_of_read? hbare.toOneLine hread (Number.isNaN_plainZero nan))

/-! ### Values with a comparison in them -/

section

variable {cs : List Char} {sign : Char} (htrim : Text.trim cs = cs) (hmem : sign ∈ cs)
  (hsign : isSign sign = true)
include htrim hmem hsign

/-- A text with a sign in it is neither a truth value nor a number. -/
theorem detect_of_sign : Cell.detect cs = .text (.ofList cs) := by
  have hne : cs ≠ [] := List.ne_nil_of_mem hmem
  have hlower : sign.toLower = sign := by
    simp only [isSign, Bool.or_eq_true, decide_eq_true_eq] at hsign
    obtain (rfl | rfl) | rfl := hsign <;> decide
  have hword : ∀ word : String, (∀ c ∈ word.toList.map Char.toLower, isSign c = false) →
      ¬Text.equalIgnoringCase (.ofList cs) word = true := by
    intro word hword hequal
    have hsame : cs.map Char.toLower = word.toList.map Char.toLower := by
      simpa [Text.equalIgnoringCase] using hequal
    have hin : sign ∈ word.toList.map Char.toLower := by
      rw [← hsame, ← hlower]
      exact List.mem_map_of_mem hmem
    rw [hword sign hin] at hsign
    cases hsign
  have hread : Number.read? cs = none := by
    cases hread : Number.read? cs with
    | none => rfl
    | some x =>
        rw [(Number.occurs_of_read? hread sign hmem).isSign_eq_false] at hsign
        cases hsign
  simp only [detect_of_trimmed hne htrim, hword "true" (by decide), hword "false" (by decide),
    hread, Bool.false_eq_true, if_false]

theorem readValue_of_sign : ∃ s, readValue cs = .text s := by
  have hdetect := detect_of_sign htrim hmem hsign
  unfold readValue
  split
  · split
    · exact ⟨_, rfl⟩
    · exact ⟨_, hdetect⟩
  · rw [hdetect]
    exact ⟨_, rfl⟩

end

/-- The value that is found behind a comparison within the column is another one. -/
theorem readValue_behind {z : List Char} {sign : Char} (hz : z.getLast? = some sign)
    (hsign : isSign sign = true) {v : Cell} (hv : Given v)
    (htrim : Text.trim (z ++ ' ' :: printed v) = z ++ ' ' :: printed v) :
    (readValue (z ++ ' ' :: printed v)).plainZero ≠ v.plainZero := by
  have hmem : sign ∈ z ++ ' ' :: printed v :=
    List.mem_append_left _ (List.mem_of_getLast? hz)
  obtain ⟨t, ht⟩ := readValue_of_sign htrim hmem hsign
  cases hv with
  | boolean b =>
      rw [ht]
      simp [Cell.plainZero]
  | number nan =>
      rw [ht]
      simp [Cell.plainZero]
  | @text s line =>
      obtain ⟨c, rest, rfl⟩ : ∃ c rest, z = c :: rest := by
        cases z with
        | nil => cases hz
        | cons c rest => exact ⟨c, rest, rfl⟩
      have hlast : (rest ++ ' ' :: quote s.toList).getLast? = some '"' := by
        simp [quote, List.getLast?_append, List.getLast?_cons]
      have hdrop : (rest ++ ' ' :: quote s.toList).dropLast =
          rest ++ ' ' :: '"' :: escape s.toList := by
        have hquote : rest ++ ' ' :: quote s.toList =
            (rest ++ ' ' :: '"' :: escape s.toList) ++ ['"'] := by
          simp [quote]
        rw [hquote, List.dropLast_concat]
      by_cases hc : c = '"'
      · -- The value is quoted, and longer than the text.
        subst hc
        have hrest : rest.getLast? = some sign := by
          cases rest with
          | nil =>
              cases hz
              cases hsign
          | cons d rest => simpa using hz
        have hslash : sign ≠ '\\' := by
          rintro rfl
          cases hsign
        simp only [printed, List.cons_append, readValue, hlast, if_true, hdrop]
        rw [unescape_append hrest hslash, unescape_cons (by decide), unescape_cons (by decide),
          unescape_escape]
        intro hsame
        have hlength := congrArg List.length (congrArg String.toList (Cell.text.inj hsame))
        simp at hlength
        omega
      · have hvalue : readValue (c :: rest ++ ' ' :: printed (.text s)) =
            .text (.ofList (c :: rest ++ ' ' :: printed (.text s))) := by
          rw [List.cons_append] at htrim hmem ⊢
          unfold readValue
          split
          · rename_i hcons
            exact absurd (List.cons.inj hcons).1 hc
          · rw [detect_of_sign htrim hmem hsign]
        rw [hvalue]
        intro hsame
        have hlength := congrArg List.length (congrArg String.toList (Cell.text.inj hsame))
        have hescape := length_le_length_escape s.toList
        simp [printed, quote] at hlength
        omega

/-- The condition with its zero without sign. -/
def plainZero (c : Condition) : Condition := { c with value := c.value.plainZero }

theorem plainZero_plainZero (c : Condition) : c.plainZero.plainZero = c.plainZero := by
  obtain ⟨column, op, value⟩ := c
  cases value with
  | number x => simp [plainZero, Cell.plainZero, Number.plainZero_plainZero]
  | text s => rfl
  | boolean b => rfl
  | empty => rfl

theorem printed_plainZero {v : Cell} (h : Given v) : printed v.plainZero = printed v := by
  cases h with
  | text line => rfl
  | boolean b => rfl
  | number nan => exact congrArg String.toList (Number.read?_display_of_isNaN nan).2

theorem display_plainZero {c : Condition} (h : Given c.value) :
    c.plainZero.display = c.display := by
  rw [← String.toList_inj, toList_display, toList_display]
  exact congrArg _ (congrArg _ (congrArg _ (congrArg _ (printed_plainZero h))))

/-- The sign of a zero does not count for the rows. -/
theorem accepts_plainZero (c : Condition) (row : Row) :
    c.plainZero.accepts row = c.accepts row := by
  have hcompare : (fun cell => c.plainZero.operand.compare c.op (.ofCell cell)) =
      fun cell => c.operand.compare c.op (.ofCell cell) := by
    funext cell
    obtain ⟨column, op, value⟩ := c
    cases value with
    | number x =>
        simp [operand, plainZero, Cell.plainZero, Operand.compare, Number.order?_plainZero]
    | text s => rfl
    | boolean b => rfl
    | empty => rfl
  exact congrArg (row.get? c.column).any hcompare

/-! ### Columns -/

end Condition

/-- A header without blanks at its ends, and not empty. -/
def Schema.Tidy (name : String) : Prop := name.toList ≠ [] ∧ Text.trim name.toList = name.toList

/-- A number behind a header brings no blanks to its ends. -/
theorem Schema.trim_alternative {header : String}
    (h : Text.trim header.toList = header.toList) (n : Nat) :
    Text.trim (alternative header n).toList = (alternative header n).toList := by
  have hdigits := Number.digitsOf_ne_nil n
  have htext : (alternative header n).toList = header.toList ++ '.' :: Number.digitsOf n := by
    simp [alternative]
  rw [htext]
  apply Text.trim_eq_self
  · cases hheader : header.toList with
    | nil => rfl
    | cons c cs =>
        have hfirst := (Text.ends_of_trim h).1
        rw [hheader] at hfirst
        exact hfirst
  · rw [List.getLast?_append_of_ne_nil _ (by simp), ← List.singleton_append,
      List.getLast?_append_of_ne_nil _ hdigits]
    cases hlast : (Number.digitsOf n).getLast? with
    | none => rfl
    | some d =>
        have hd := Number.isDigit_of_mem_digitsOf (List.mem_of_getLast? hlast)
        exact Number.Occurs.isBlank_eq_false (.inl hd)

/-- Tidy headers get tidy names. -/
theorem Schema.tidy_ofHeaders {headers : List String} (h : ∀ header ∈ headers, Tidy header) :
    ∀ name ∈ (ofHeaders headers).names, Tidy name :=
  forall_mem_ofHeaders h fun header hheader n =>
    ⟨by simp [alternative], trim_alternative (h header hheader).2 (n + 1)⟩

namespace Condition

/-- The condition can be read from its text: its column is legible, or a space in front of a
comparison without signs behind its first character. -/
def Printable (c : Condition) : Prop :=
  Legible c.column.toList ∨ c.column = " " ∧
    ∀ d ∈ (c.op.spelling.toList ++ ' ' :: printed c.value).tail, isSign d = false

/-- What a condition is like that has been read: its column is tidy or a blank, is resolved, and its
value can be printed. -/
structure Resolved (schema : Schema) (c : Condition) : Prop where
  column : Schema.Tidy c.column ∨ ∃ b, Text.isBlank b = true ∧ c.column.toList = [b]
  resolved : columnOf schema c.column.toList = c.column
  value : Given c.value

section

variable {schema : Schema} {c : Condition}

theorem resolved_of_read (hschema : ∀ name ∈ schema.names, Schema.Tidy name) {text : String}
    (h : read schema text = .ok c) : Resolved schema c := by
  obtain ⟨column, value, hparts, hne, hcolumn, hvalue⟩ := parts?_of_read h
  obtain ⟨hcut, hshape⟩ := cut_of_parts? hparts
  refine ⟨?_, hcolumn ▸ columnOf_columnOf schema column, ?_⟩
  · rcases columnOf_mem_or schema column with hmem | hsame
    · exact .inl (hschema _ (hcolumn ▸ hmem))
    · rw [hcolumn, hsame, Schema.Tidy, String.toList_ofList]
      exact hshape
  · rw [hvalue]
    exact given_readValue ⟨hne, hcut.valueTrimmed, hcut.valueLine⟩

/-- A printable condition is read back from its text, but for the sign of zero. -/
theorem read_display (hc : Resolved schema c) (h : c.Printable) :
    read schema c.display = .ok c.plainZero := by
  have hop := ofText?_spelling c.op
  have hvalue := oneLine_printed hc.value
  have hparts : parts? c.display.toList = some (c.column.toList, c.op, printed c.value) := by
    rw [toList_display]
    rcases h with hlegible | ⟨hspace, hsigns⟩
    · exact parts?_spaced hlegible hop hvalue
    · obtain ⟨hblank, hnone⟩ := parts?_of_blank (b := ' ') (by decide) hop hvalue
      rw [hspace]
      exact hblank.trans (congrArg some (by rw [hnone.2 hsigns]; rfl))
  have hne : (printed c.value).isEmpty = false := by simp [hvalue.ne_nil]
  simp only [read, hparts, hne, Bool.false_eq_true, if_false, hc.resolved,
    readValue_printed hc.value, plainZero]

/-- A condition that is read back from its text is printable. -/
theorem printable_of_read_display (hschema : ∀ name ∈ schema.names, Schema.Tidy name)
    (hc : Resolved schema c) {c' : Condition} (h : read schema c.display = .ok c')
    (hsame : c'.plainZero = c.plainZero) : c.Printable := by
  have hop := ofText?_spelling c.op
  have hvalue := oneLine_printed hc.value
  obtain ⟨hsameColumn, -, hsameValue⟩ := Condition.mk.inj hsame
  obtain ⟨column, value, hparts, -, hcolumn, hread⟩ := parts?_of_read h
  have hcut := (cut_of_parts? hparts).1
  rw [toList_display] at hparts
  rcases hc.column with ⟨hne, htrim⟩ | ⟨b, hb, hblank⟩
  · by_cases hlegible : Legible c.column.toList
    · exact .inl hlegible
    · obtain ⟨z, sign, hz, hsign, rfl⟩ :=
        parts?_of_not_legible hne htrim hlegible hop hvalue hparts
      rw [hread] at hsameValue
      exact absurd hsameValue (readValue_behind hz hsign hc.value hcut.valueTrimmed)
  · obtain ⟨hfound, hnone⟩ := parts?_of_blank hb hop hvalue
    rw [hblank] at hparts
    have hsome := Option.some.inj (hfound.symm.trans hparts)
    -- A name is not blank, so that the reference has not been resolved.
    have hself : c.column = .ofList column := by
      rcases columnOf_mem_or schema column with hmem | hself
      · obtain ⟨-, htrim⟩ := hschema _ hmem
        rw [← hcolumn, hsameColumn, hblank] at htrim
        have hends := (Text.ends_of_trim htrim).1
        simp [hb] at hends
      · rw [← hsameColumn, hcolumn, hself]
    cases hsplit : split? (c.op.spelling.toList ++ ' ' :: printed c.value) with
    | none =>
        rw [hsplit] at hsome
        obtain rfl : [' '] = column := congrArg Prod.fst hsome
        exact .inr ⟨hself, hnone.1 hsplit⟩
    | some cut =>
        obtain ⟨column', op', value'⟩ := cut
        rw [hsplit] at hsome
        obtain rfl : column' = column := congrArg Prod.fst hsome
        obtain ⟨d, more, rest, rfl, hcons⟩ := split?_head? hsplit
        obtain ⟨e, rest', hspelling, he⟩ := isBlank_of_ofText? hop
        rw [hself, String.toList_ofList] at hblank
        rw [hspelling, List.cons_append] at hcons
        obtain rfl : d = b := (List.cons.inj hblank).1
        rw [(List.cons.inj hcons).1, hb] at he
        cases he

end

/-- A condition is read back from its text if and only if it is printable. Then a dashboard prints
it the same way again, and it selects the same rows. -/
theorem read_display_iff {headers : List String} (hheaders : ∀ h ∈ headers, Schema.Tidy h)
    {text : String} {c : Condition} (hread : read (.ofHeaders headers) text = .ok c) :
    ((∃ c', read (.ofHeaders headers) c.display = .ok c' ∧ c'.plainZero = c.plainZero) ↔
        c.Printable) ∧
      (c.Printable → ∀ target : Dashboard.Target, target.schema = .ofHeaders headers →
        target.condition (target.condition text) = target.condition text ∧
          ∃ c', read target.schema (target.condition text) = .ok c' ∧
            ∀ t : Table, t.retain [c'] = t.retain [c]) := by
  have hschema := Schema.tidy_ofHeaders hheaders
  have hc := resolved_of_read hschema hread
  refine ⟨⟨?_, fun h => ?_⟩, fun h target htarget => ?_⟩
  · rintro ⟨c', hc', hsame⟩
    exact printable_of_read_display hschema hc hc' hsame
  · exact ⟨c.plainZero, read_display hc h, plainZero_plainZero c⟩
  · have hdisplay : target.condition text = c.display := by
      simp [Dashboard.Target.condition, htarget, hread]
    have hagain : read target.schema c.display = .ok c.plainZero := by
      rw [htarget]
      exact read_display hc h
    rw [hdisplay]
    refine ⟨?_, c.plainZero, hagain, fun t => ?_⟩
    · simp [Dashboard.Target.condition, hagain, display_plainZero hc.value]
    · simp [Table.retain, accepts_plainZero]

/-- A column by its letters, with a value that has to be quoted. -/
theorem read_display_iff_gender :
    let headers := ["gender", "gender", "unit price"]
    let c : Condition := ⟨"gender.1", .notEqual, .text "say \"<b>\""⟩
    (∀ h ∈ headers, Schema.Tidy h) ∧
      read (.ofHeaders headers) "B2:B <> \"say \\\"<b>\\\"\"" = .ok c ∧ c.Printable ∧
      (∃ c', read (.ofHeaders headers) c.display = .ok c' ∧ c'.plainZero = c.plainZero) ∧
      (⟨.standard, .ofHeaders headers⟩ : Dashboard.Target).condition
          "B2:B <> \"say \\\"<b>\\\"\"" = "gender.1 != \"say \\\"<b>\\\"\"" := by
  intro headers c
  have hheaders : ∀ h ∈ headers, Schema.Tidy h := by
    unfold Schema.Tidy
    decide +kernel
  have hread : read (.ofHeaders headers) "B2:B <> \"say \\\"<b>\\\"\"" = .ok c := by decide +kernel
  have hprintable : c.Printable := .inl ⟨by decide, by decide +kernel, by decide, by decide⟩
  exact ⟨hheaders, hread, hprintable, (read_display_iff hheaders hread).1.2 hprintable,
    by decide +kernel⟩

/-- A column with a sign in its name is cut at the sign. -/
theorem read_display_sign :
    let c : Condition := ⟨"a<b", .greater, .number 1⟩
    read (.ofHeaders ["a<b"]) "A > 1" = .ok c ∧ c.display = "a<b > 1" ∧
      read (.ofHeaders ["a<b"]) c.display = .ok ⟨"a", .less, .text "b > 1"⟩ := by
  decide +kernel

end Condition

end SheetBoard
