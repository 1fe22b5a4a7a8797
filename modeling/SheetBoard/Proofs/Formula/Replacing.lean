import SheetBoard.Proofs.Formula.Piece

/-! Replacing in pieces. The patterns of references and calls match only at the start of a name, so
what a replacement makes of a text is known from what it makes of each piece. -/

namespace SheetBoard.Formula

/-- The character before what follows `cs`. -/
def lastChar (before : Option Char) (cs : List Char) : Option Char :=
  cs.foldl (fun _ c => some c) before

theorem lastChar_cons (before : Option Char) (c : Char) (cs : List Char) :
    lastChar before (c :: cs) = lastChar (some c) cs := rfl

theorem lastChar_append (before : Option Char) (a b : List Char) :
    lastChar before (a ++ b) = lastChar (lastChar before a) b :=
  List.foldl_append

theorem lastChar_of_ne_nil (before : Option Char) {cs : List Char} (h : cs ≠ []) :
    lastChar before cs = cs.getLast? := by
  induction cs generalizing before with
  | nil => exact absurd rfl h
  | cons c cs ih =>
      cases cs with
      | nil => rfl
      | cons d cs =>
          rw [List.getLast?_cons_cons]
          exact ih (some c) (by simp)

theorem lastChar_none (cs : List Char) : lastChar none cs = cs.getLast? := by
  cases cs with
  | nil => rfl
  | cons c cs => exact lastChar_of_ne_nil none (by simp)

/-- At this place, `x` is replaced by `y`, and `rest` follows. -/
def Replaces (edit? : Option Char → List Char → Option Edit) (before : Option Char)
    (x y rest : List Char) : Prop :=
  replaceFrom edit? 0 before (x ++ rest) = y ++ replaceFrom edit? 0 (lastChar before x) rest

theorem Replaces.append {edit? : Option Char → List Char → Option Edit} {before : Option Char}
    {x y x' y' rest : List Char} (h : Replaces edit? before x y (x' ++ rest))
    (h' : Replaces edit? (lastChar before x) x' y' rest) :
    Replaces edit? before (x ++ x') (y ++ y') rest := by
  unfold Replaces at *
  rw [List.append_assoc, h, h', lastChar_append, List.append_assoc]

theorem replaceFrom_skip (edit? : Option Char → List Char → Option Edit) (before : Option Char)
    (x rest : List Char) :
    replaceFrom edit? x.length before (x ++ rest) =
      replaceFrom edit? 0 (lastChar before x) rest := by
  induction x generalizing before with
  | nil => rfl
  | cons c x ih => exact ih (some c)

/-- The edits that a replacement makes. -/
def editOf {α : Type} (find : Pattern α)
    (form : Option Char → α → List Char → Option (List Char)) (before : Option Char)
    (cs : List Char) : Option Edit :=
  (find before cs).map fun (found, rest) =>
    let size := cs.length - rest.length
    ⟨size, (form before found rest).getD (cs.take size)⟩

theorem replaceAll_eq {α : Type} (find : Pattern α)
    (form : Option Char → α → List Char → Option (List Char)) (cs : List Char) :
    replaceAll find form cs = replaceFrom (editOf find form) 0 none cs := rfl

/-- The pattern matches only where a name starts. -/
structure WordPattern {α : Type} (find : Pattern α) : Prop where
  plain : ∀ before {c} cs, isNameStart c = false → find before (c :: cs) = none
  inside : ∀ {c} cs, Text.isWordChar c = true → find (some c) cs = none

section

variable {α : Type} {find : Pattern α} {form : Option Char → α → List Char → Option (List Char)}
  {before : Option Char} {x w rest : List Char}

theorem replaces_char {c : Char} (hnone : find before (c :: rest) = none) :
    Replaces (editOf find form) before [c] [c] rest := by
  have hedit : editOf find form before (c :: rest) = none := by simp [editOf, hnone]
  unfold Replaces
  rw [List.singleton_append, replaceFrom]
  simp only [hedit]
  rfl

/-- Text without the start of a name stays. -/
theorem WordPattern.replaces_plain (h : WordPattern find)
    (hx : ∀ c ∈ x, isNameStart c = false) : Replaces (editOf find form) before x x rest := by
  induction x generalizing before with
  | nil => rfl
  | cons c x ih =>
      have hc : Replaces (editOf find form) before [c] [c] (x ++ rest) :=
        replaces_char (h.plain before _ (hx c (by simp)))
      exact hc.append (ih fun d hd => hx d (by simp [hd]))

/-- The rest of a name stays. -/
theorem WordPattern.replaces_inside (h : WordPattern find) {c : Char}
    (hc : Text.isWordChar c = true) (hw : ∀ d ∈ w, isNameChar d = true) :
    Replaces (editOf find form) (some c) w w rest := by
  induction w generalizing c with
  | nil => rfl
  | cons d w ih =>
      have hd : Replaces (editOf find form) (some c) [d] [d] (w ++ rest) :=
        replaces_char (h.inside _ hc)
      exact hd.append
        (ih (isWordChar_of_isNameChar (hw d (by simp))) fun e he => hw e (by simp [he]))

/-- A name stays if nothing is found at its start. -/
theorem WordPattern.replaces_name (h : WordPattern find) (hw : IsName w)
    (hnone : find before (w ++ rest) = none) : Replaces (editOf find form) before w w rest := by
  obtain ⟨c, w, rfl, hc⟩ := hw.exists_cons
  have hfirst : Replaces (editOf find form) before [c] [c] (w ++ rest) := replaces_char hnone
  have hword := isWordChar_of_isNameChar (isNameChar_of_isNameStart hc)
  exact hfirst.append (h.replaces_inside hword fun d hd => hw.all d (by simp [hd]))

/-- What is found is replaced, or stays if `form` refuses it. -/
theorem replaces_found {found : α} (hx : x ≠ [])
    (hfind : find before (x ++ rest) = some (found, rest)) :
    Replaces (editOf find form) before x ((form before found rest).getD x) rest := by
  have hedit : editOf find form before (x ++ rest) =
      some ⟨x.length, (form before found rest).getD x⟩ := by
    simp [editOf, hfind]
  cases x with
  | nil => exact absurd rfl hx
  | cons c x =>
      unfold Replaces
      rw [List.cons_append] at hedit ⊢
      rw [replaceFrom]
      simp only [hedit]
      exact congrArg _ (replaceFrom_skip _ (some c) x rest)

end

/-! ### Names at the front of a text -/

theorem takeWhile_append_stop {α : Type} {p : α → Bool} (w : List α) {rest : List α}
    (h : rest.head?.any p = false) : (w ++ rest).takeWhile p = w.takeWhile p := by
  induction w with
  | nil =>
      cases rest with
      | nil => rfl
      | cons c rest => exact List.takeWhile_cons_of_neg (by simpa using h)
  | cons c w ih => by_cases hc : p c = true <;> simp [hc, ih]

theorem dropWhile_append_stop {α : Type} {p : α → Bool} (w : List α) {rest : List α}
    (h : rest.head?.any p = false) : (w ++ rest).dropWhile p = w.dropWhile p ++ rest := by
  induction w with
  | nil =>
      cases rest with
      | nil => rfl
      | cons c rest => exact List.dropWhile_cons_of_neg (by simpa using h)
  | cons c w ih => by_cases hc : p c = true <;> simp [hc, ih]

theorem isWordChar_of_isDecimalDigit {c : Char} (h : Text.isDecimalDigit c = true) :
    Text.isWordChar c = true := by
  unfold Text.isWordChar
  cases hascii : Text.isAscii c with
  | true =>
      have hdigit : Text.isAsciiDigit c = true := by simpa [Text.isDecimalDigit, hascii] using h
      simp [hdigit]
  | false => simp [h]

/-- A run of characters ends before `rest`, so a run of characters of one kind among them does. -/
theorem any_head?_eq_false {rest : List Char} {p : Char → Bool} (hrest : rest.head?.any p = false)
    {q : Char → Bool} (hq : ∀ c, q c = true → p c = true) : rest.head?.any q = false := by
  cases hhead : rest.head? with
  | none => rfl
  | some c =>
      rw [hhead, Option.any_some] at hrest
      cases hc : q c with
      | false => simpa using hc
      | true =>
          rw [hq c hc] at hrest
          cases hrest

section

variable {w rest : List Char} (hrest : rest.head?.any Text.isWordChar = false)

include hrest

theorem read?_append (w : List Char) : Reference.read? (w ++ rest) =
    (Reference.read? w).map fun (reference, tail) => (reference, tail ++ rest) := by
  have hcapital : rest.head?.any isCapital = false :=
    any_head?_eq_false hrest fun c hc =>
      isWordChar_of_isNameChar (isNameChar_of_isNameStart (isNameStart_of_isCapital hc))
  have hdigit : rest.head?.any Text.isDecimalDigit = false :=
    any_head?_eq_false hrest fun c => isWordChar_of_isDecimalDigit
  simp only [Reference.read?, takeWhile_append_stop w hcapital, dropWhile_append_stop w hcapital,
    takeWhile_append_stop _ hdigit, dropWhile_append_stop _ hdigit]
  split <;> rfl

theorem readName?_append (hw : IsName w) :
    readName? (w ++ rest) = if 2 ≤ w.length then some (w, rest) else none := by
  have hname : rest.head?.any isNameChar = false :=
    any_head?_eq_false hrest fun c => isWordChar_of_isNameChar
  obtain ⟨c, tail, htail, hc⟩ := hw.exists_cons
  have hstart : (w ++ rest).head?.any isNameStart = true := by simp [htail, hc]
  simp only [readName?, hstart, Number.takeWhile_append_of_all hw.all hname,
    Number.dropWhile_append_of_all hw.all hname, Bool.true_and, decide_eq_true_eq]

end

/-! ### The patterns -/

theorem guard_eq_ite (p : Prop) [Decidable p] :
    (guard p : Option Unit) = if p then some () else none := by
  unfold guard
  split <;> rfl

theorem startsWord_of_isWordChar {c : Char} (h : Text.isWordChar c = true) :
    startsWord (some c) = false := by
  simp [startsWord, h]

theorem Clear.startsWord {before : Option Char} (h : Clear before) : startsWord before = true := by
  simp [Formula.startsWord, h.any (q := Text.isWordChar) (by decide)]

theorem Ends.word {rest : List Char} (h : Ends rest) : rest.head?.any Text.isWordChar = false :=
  h.any (by decide)

theorem Ends.colon {rest : List Char} (h : Ends rest) : rest.head? ≠ some ':' :=
  h.head?_ne (by decide)

theorem read?_plain {c : Char} (h : isNameStart c = false) (cs : List Char) :
    Reference.read? (c :: cs) = none := by
  have hcapital : isCapital c = false := by
    cases hc : isCapital c with
    | false => rfl
    | true =>
        rw [isNameStart_of_isCapital hc] at h
        cases h
  simp [Reference.read?, hcapital]

theorem wordPattern_nameRange : WordPattern nameRange where
  plain before c cs h := by simp [nameRange, readName?, h, ↓guard_eq_ite]
  inside cs h := by simp [nameRange, startsWord_of_isWordChar h, ↓guard_eq_ite]

theorem wordPattern_letterRange : WordPattern letterRange where
  plain before c cs h := by simp [letterRange, read?_plain h, ↓guard_eq_ite]
  inside cs h := by simp [letterRange, startsWord_of_isWordChar h, ↓guard_eq_ite]

theorem wordPattern_cellReference : WordPattern cellReference where
  plain before c cs h := by simp [cellReference, read?_plain h, ↓guard_eq_ite]
  inside cs h := by simp [cellReference, startsWord_of_isWordChar h, ↓guard_eq_ite]

theorem wordPattern_callName : WordPattern FunctionTable.callName where
  plain before c cs h := by simp [FunctionTable.callName, h, ↓guard_eq_ite]
  inside cs h := by simp [FunctionTable.callName, startsWord_of_isWordChar h, ↓guard_eq_ite]

theorem wordPattern_wholeName {name : List Char} (hname : IsName name) :
    WordPattern (wholeName name) := by
  obtain ⟨d, tail, rfl, hd⟩ := hname.exists_cons
  have hword := isWordChar_of_isNameChar (isNameChar_of_isNameStart hd)
  refine ⟨?_, ?_⟩
  · intro before c cs h
    have hne : d ≠ c := by
      rintro rfl
      rw [hd] at h
      cases h
    simp [wholeName, hne, ↓guard_eq_ite]
  · intro c cs h
    simp [wholeName, Text.isBoundary, hword, h, ↓guard_eq_ite]

section

variable {before : Option Char} {w rest : List Char}

/-- A name without a colon behind it starts no range. -/
theorem nameRange_eq_none (hw : IsName w) (hrest : rest.head?.any Text.isWordChar = false)
    (hcolon : rest.head? ≠ some ':') : nameRange before (w ++ rest) = none := by
  -- What is in front does not matter here.
  unfold nameRange
  generalize (guard (startsWord before) : Option Unit) = start
  simp only [readName?_append hrest hw, ↓guard_eq_ite]
  split
  · simp only [Option.bind_eq_bind, Option.bind_some]
    split
    · simp at hcolon
    · simp
  · simp

theorem eq_append_of_read? {cs tail : List Char} {r : Reference}
    (h : Reference.read? cs = some (r, tail)) : cs = r.letters ++ (r.digits ++ tail) := by
  simp only [Reference.read?] at h
  split at h
  · cases h
  · obtain ⟨rfl, rfl⟩ := Prod.mk.inj (Option.some.inj h)
    simp

theorem read?_letters (letters : Capitals) {digits : List Char}
    (h : ∀ c ∈ digits, Text.isDecimalDigit c = true) :
    Reference.read? (letters.chars ++ digits) = some (⟨letters.chars, digits⟩, []) := by
  have hstop : digits.head?.any isCapital = false := by
    cases digits with
    | nil => rfl
    | cons c digits =>
        have hc := h c (by simp)
        cases hcapital : isCapital c with
        | false => simpa using hcapital
        | true =>
            rw [isDecimalDigit_of_isCapital hcapital] at hc
            cases hc
  have htake := Number.takeWhile_append_of_all (b := []) h rfl
  have hdrop := Number.dropWhile_append_of_all (b := []) h rfl
  rw [List.append_nil] at htake hdrop
  simp only [Reference.read?, Number.takeWhile_append_of_all letters.all hstop,
    Number.dropWhile_append_of_all letters.all hstop, htake, hdrop]
  simp [letters.ne_nil]

theorem capitals_of_read? {cs tail : List Char} {r : Reference}
    (h : Reference.read? cs = some (r, tail)) : ∃ letters : Capitals, letters.chars = r.letters ∧
      ∀ c ∈ r.digits, Text.isDecimalDigit c = true := by
  simp only [Reference.read?] at h
  split at h
  · cases h
  · rename_i hne
    obtain ⟨rfl, -⟩ := Prod.mk.inj (Option.some.inj h)
    exact ⟨⟨cs.takeWhile isCapital, by simpa using hne, List.all_eq_true.1 List.all_takeWhile⟩, rfl,
      List.all_eq_true.1 List.all_takeWhile⟩

theorem isReference_letters (letters : Capitals) {digits : List Char}
    (h : ∀ c ∈ digits, Text.isDecimalDigit c = true) :
    isReference (letters.chars ++ digits) = true := by
  simp [isReference, read?_letters letters h]

/-- What is left of a name when a reference was read from it. -/
theorem isNameChar_of_read? {tail : List Char} {r : Reference}
    (hw : ∀ c ∈ w, isNameChar c = true) (h : Reference.read? w = some (r, tail)) :
    ∀ c ∈ tail, isNameChar c = true := by
  intro c hc
  refine hw c ?_
  rw [eq_append_of_read? h]
  simp [hc]

theorem letterRange_eq_none (hw : ∀ c ∈ w, isNameChar c = true)
    (hrest : rest.head?.any Text.isWordChar = false) (hcolon : rest.head? ≠ some ':') :
    letterRange before (w ++ rest) = none := by
  unfold letterRange
  generalize (guard (startsWord before) : Option Unit) = start
  simp only [read?_append hrest, ↓guard_eq_ite]
  cases hread : Reference.read? w with
  | none => simp
  | some found =>
      obtain ⟨r, tail⟩ := found
      have hhead : (tail ++ rest).head? ≠ some ':' := by
        cases tail with
        | nil => exact hcolon
        | cons c tail =>
            have hc := isNameChar_of_read? hw hread c (by simp)
            simpa using ne_of_isNameChar hc (by decide)
      simp only [Option.map_some, Option.bind_eq_bind, Option.bind_some]
      split
      · rename_i heq
        simp [heq] at hhead
      · simp

/-- A cell reference is all of a name, or none of it. -/
theorem cellReference_eq_none (hw : ∀ c ∈ w, isNameChar c = true)
    (hrest : rest.head?.any Text.isWordChar = false)
    (hmiss : ∀ r tail, Reference.read? w = some (r, tail) → r.digits = [] ∨ tail ≠ []) :
    cellReference before (w ++ rest) = none := by
  simp only [cellReference, read?_append hrest, ↓guard_eq_ite]
  cases hread : Reference.read? w with
  | none => simp
  | some found =>
      obtain ⟨r, tail⟩ := found
      rcases hmiss r tail hread with hdigits | htail
      · simp [hdigits]
      · obtain ⟨c, tail, rfl⟩ := List.exists_cons_of_ne_nil htail
        have hc := isWordChar_of_isNameChar (isNameChar_of_read? hw hread c (by simp))
        simp [endsWord, hc]

theorem cellReference_of_read? (hbefore : Clear before)
    (hrest : rest.head?.any Text.isWordChar = false) {r : Reference}
    (hread : Reference.read? w = some (r, [])) (hdigits : r.digits ≠ []) :
    cellReference before (w ++ rest) = some (r, rest) := by
  simp [cellReference, read?_append hrest, hread, ↓guard_eq_ite, hbefore.startsWord, endsWord,
    hrest, hdigits]

theorem rest_of_cellReference (hw : ∀ c ∈ w, isNameChar c = true)
    (hrest : rest.head?.any Text.isWordChar = false) {found : Reference} {tail : List Char}
    (h : cellReference before (w ++ rest) = some (found, tail)) : tail = rest := by
  by_cases hmiss : ∀ r tail, Reference.read? w = some (r, tail) → r.digits = [] ∨ tail ≠ []
  · rw [cellReference_eq_none hw hrest hmiss] at h
    cases h
  · obtain ⟨r, all, hread, hnot⟩ : ∃ r tail, Reference.read? w = some (r, tail) ∧
        ¬(r.digits = [] ∨ tail ≠ []) := by simpa using hmiss
    have hall : all = [] := by simpa using (not_or.mp hnot).2
    simp only [cellReference, read?_append hrest, hread, hall, ↓guard_eq_ite] at h
    simp only [Option.bind_eq_bind, Option.bind_eq_some_iff] at h
    obtain ⟨-, -, -, ⟨rfl⟩, -, -, hpair⟩ := h
    exact (Prod.mk.inj (Option.some.inj hpair)).2.symm

theorem IsName.any_getLast? (hw : IsName w) : w.getLast?.any Text.isWordChar = true := by
  rw [List.getLast?_eq_some_getLast hw.ne_nil, Option.any_some]
  exact isWordChar_of_isNameChar (hw.all _ (List.getLast_mem _))

theorem wholeName_self (hbefore : Clear before) (hw : IsName w)
    (hrest : rest.head?.any Text.isWordChar = false) :
    wholeName w before (w ++ rest) = some ((), rest) := by
  have hbefore := hbefore.any (q := Text.isWordChar) (by decide)
  have hhead : w.head?.any Text.isWordChar = true := by
    obtain ⟨c, tail, rfl, hc⟩ := hw.exists_cons
    simpa using isWordChar_of_isNameChar (isNameChar_of_isNameStart hc)
  have hlast := hw.any_getLast?
  simp [wholeName, Text.isBoundary, hbefore, hhead, hlast, hrest, ↓guard_eq_ite]

theorem rest_of_wholeName {found : Unit} {tail : List Char}
    (h : wholeName w before (w ++ rest) = some (found, tail)) : tail = rest := by
  simp only [wholeName, ↓guard_eq_ite, Option.bind_eq_bind, Option.bind_eq_some_iff] at h
  obtain ⟨-, -, hpair⟩ := h
  have hdrop := (Prod.mk.inj (Option.some.inj hpair)).2
  rw [← hdrop, List.drop_left]

/-- Only all of a name is found in a name. -/
theorem wholeName_eq_none {name : List Char} (hname : IsName name)
    (hw : ∀ c ∈ w, isNameChar c = true) (hrest : rest.head?.any Text.isWordChar = false)
    (hne : name ≠ w) : wholeName name before (w ++ rest) = none := by
  have hmiss : (name.isPrefixOf (w ++ rest) && Text.isBoundary before name.head? &&
      Text.isBoundary name.getLast? ((w ++ rest).drop name.length).head?) = false := by
    cases hprefix : name.isPrefixOf (w ++ rest) with
    | false => rfl
    | true =>
        have hfront := List.isPrefixOf_iff_prefix.1 hprefix
        rcases List.prefix_or_prefix_of_prefix hfront (List.prefix_append w rest) with
          ⟨tail, rfl⟩ | ⟨tail, rfl⟩
        · -- The name ends within `w`, where a name character follows.
          cases tail with
          | nil => simp at hne
          | cons d tail =>
              have hd := isWordChar_of_isNameChar (hw d (by simp))
              have hlast : name.getLast?.any Text.isWordChar = true := hname.any_getLast?
              simp [Text.isBoundary, hd, hlast]
        · -- The name goes on behind `w`, where no name character follows.
          cases tail with
          | nil => simp at hne
          | cons d tail =>
              have hd := isWordChar_of_isNameChar (hname.all d (by simp))
              obtain ⟨more, hmore⟩ := (List.prefix_append_right_inj w).1 hfront
              simp [← hmore, hd] at hrest
  simp only [wholeName, hmiss, ↓guard_eq_ite]
  rfl

theorem callName_eq_none (hw : IsName w) (hrest : rest.head?.any Text.isWordChar = false)
    (hopens : opensCall rest = false) : FunctionTable.callName before (w ++ rest) = none := by
  have hname : rest.head?.any isNameChar = false :=
    any_head?_eq_false hrest fun c => isWordChar_of_isNameChar
  have hparen : (Text.trimStart rest).head? ≠ some '(' := by simpa [opensCall] using hopens
  simp only [FunctionTable.callName, ↓guard_eq_ite, Number.takeWhile_append_of_all hw.all hname,
    Number.dropWhile_append_of_all hw.all hname]
  split
  · simp only [Option.bind_eq_bind, Option.bind_some]
    split
    · simp_all
    · simp
  · simp

theorem isName_takeWhile {cs : List Char} (h : cs.head?.any isNameStart = true) :
    IsName (cs.takeWhile isNameChar) := by
  refine ⟨?_, List.all_eq_true.1 List.all_takeWhile⟩
  cases cs with
  | nil => cases h
  | cons c cs =>
      have hc : isNameStart c = true := h
      simp [isNameChar_of_isNameStart hc, hc]

/-- A call is a name where a word starts, then blanks and a parenthesis. -/
theorem callName_eq_some_iff {cs name rest : List Char} :
    FunctionTable.callName before cs = some (name, rest) ↔
      startsWord before = true ∧ IsName name ∧
        ∃ blanks, (∀ c ∈ blanks, Text.isBlank c = true) ∧ cs = name ++ (blanks ++ '(' :: rest) := by
  constructor
  · intro h
    simp only [FunctionTable.callName, ↓guard_eq_ite, Option.bind_eq_bind,
      Option.bind_eq_some_iff] at h
    obtain ⟨_, hguard, h⟩ := h
    obtain ⟨hstarts, hhead⟩ : startsWord before = true ∧ cs.head?.any isNameStart = true := by
      simpa using hguard
    split at h
    · rename_i tail htrim
      obtain ⟨rfl, rfl⟩ := Prod.mk.inj (Option.some.inj h)
      refine ⟨hstarts, isName_takeWhile hhead, (cs.dropWhile isNameChar).takeWhile Text.isBlank,
        List.all_eq_true.1 List.all_takeWhile, ?_⟩
      have hblanks : (cs.dropWhile isNameChar).takeWhile Text.isBlank ++
          Text.trimStart (cs.dropWhile isNameChar) = cs.dropWhile isNameChar :=
        List.takeWhile_append_dropWhile
      rw [← htrim, hblanks, List.takeWhile_append_dropWhile]
    · cases h
  · rintro ⟨hstarts, hname, blanks, hblanks, rfl⟩
    have hstop : (blanks ++ '(' :: rest).head?.any isNameChar = false := by
      cases blanks with
      | nil => rfl
      | cons c blanks => simpa using isNameChar_of_isBlank (hblanks c (by simp))
    have htrim : Text.trimStart (blanks ++ '(' :: rest) = '(' :: rest :=
      Number.dropWhile_append_of_all hblanks rfl
    obtain ⟨c, tail, htail, hc⟩ := hname.exists_cons
    have hhead : (name ++ (blanks ++ '(' :: rest)).head?.any isNameStart = true := by
      simp [htail, hc]
    simp only [FunctionTable.callName, ↓guard_eq_ite, hstarts, hhead,
      Number.takeWhile_append_of_all hname.all hstop,
      Number.dropWhile_append_of_all hname.all hstop, htrim]
    rfl

theorem callName_call (hbefore : Clear before) (hw : IsName w) (rest : List Char) :
    FunctionTable.callName before (w ++ '(' :: rest) = some (w, rest) :=
  callName_eq_some_iff.2 ⟨hbefore.startsWord, hw, [], List.forall_mem_nil _, rfl⟩

end

/-! ### From pieces to texts -/

/-- The header is a name that no pass takes for something else. -/
def Ref.IsPlain : Ref → Prop
  | .header name => IsName name.toList ∧ name ∉ reservedWords ∧ isReference name.toList = false
  | _ => True

/-- Callees are names, numerals are decimal, and headers are plain. -/
def Piece.Valid : Piece → Prop
  | .callee name => IsName name
  | .numeral digits => Number.IsNumeral digits
  | .reference r => r.IsPlain
  | _ => True

def Piece.isLiteral : Piece → Bool
  | .literal _ => true
  | _ => false

def Piece.isMark : Piece → Bool
  | .mark _ => true
  | _ => false

theorem IsName.cell (letters : Capitals) (row : Nat) :
    IsName (letters.chars ++ Number.digitsOf row) :=
  letters.isName_append fun _ => Number.isDigit_of_mem_digitsOf

theorem IsName.row (letters : Capitals) (row : Option Nat) :
    IsName (letters.chars ++ rowDigits row) :=
  letters.isName_append fun _ => isDigit_of_mem_rowDigits

theorem isDigit_or_point_of_isNumeral {digits : List Char} (h : Number.IsNumeral digits) :
    ∀ c ∈ digits, Number.isDigit c = true ∨ c = '.' := by
  obtain ⟨n, rfl⟩ := h
  intro c hc
  rcases List.mem_append.mp hc with hc | hc
  · exact .inl (n.whole_digits c hc)
  · split at hc
    · cases hc
    · rcases List.mem_cons.mp hc with rfl | hc
      · exact .inr rfl
      · exact .inl (n.fraction_digits c hc)

theorem Mark.unquoted_text : ∀ m : Mark, Unquoted m.text := of_all (by decide)

theorem Ref.unquoted_text {r : Ref} (h : r.IsPlain) : Unquoted r.text := by
  cases r with
  | cell letters row => exact (IsName.cell letters row).unquoted
  | range letters first last =>
      have hcolon : Unquoted [':'] := by decide
      exact (IsName.row letters first).unquoted.append
        (hcolon.append (IsName.row letters last).unquoted)
  | header name => exact h.1.unquoted

theorem Piece.Valid.unquoted_text {p : Piece} (h : p.Valid) (hp : p.isLiteral = false) :
    Unquoted p.text := by
  cases p with
  | mark m => exact m.unquoted_text
  | callee name =>
      have hname : IsName name := h
      exact hname.unquoted.append (by decide)
  | numeral digits =>
      intro c hc
      rcases isDigit_or_point_of_isNumeral h c hc with hc | rfl
      · exact isQuote_of_isNameChar (isNameChar_of_isDigit hc)
      · rfl
  | literal value => cases hp
  | truth capitals value => cases capitals <;> cases value <;> decide
  | reference r => exact Ref.unquoted_text h

theorem unquoted_textOf {ps : List Piece} (h : ∀ p ∈ ps, p.Valid ∧ p.isLiteral = false) :
    Unquoted (textOf ps) := by
  induction ps with
  | nil => simp [Unquoted]
  | cons p ps ih =>
      obtain ⟨hvalid, hliteral⟩ := h p (by simp)
      exact (hvalid.unquoted_text hliteral).append (ih fun q hq => h q (by simp [hq]))

section

variable {α : Type} (find : Pattern α) (form : Option Char → α → List Char → Option (List Char))
  (write : Piece → List Piece)

/-- The replacement writes `write p` for the piece, wherever it may stand. -/
def WritesPiece (p : Piece) : Prop :=
  ∀ before rest, (p.isMark = false → Clear before) → (p.ends = true → Ends rest) →
    Replaces (editOf find form) before p.text (textOf (write p)) rest

variable {find form write}

theorem clear_lastChar {p q : Piece} (h : p.Adjacent q) (hp : p.text ≠ []) (hq : q.isMark = false)
    (before : Option Char) : Clear (lastChar before p.text) := by
  rw [lastChar_of_ne_nil before hp]
  refine Piece.clear_getLast? ?_
  cases hends : p.ends with
  | false => rfl
  | true =>
      simp only [Piece.Adjacent, hends, if_true] at h
      cases q with
      | mark m => cases hq
      | _ => cases h

theorem Piece.Valid.text_ne_nil {p : Piece} (h : p.Valid) : p.text ≠ [] := by
  cases p with
  | mark m => exact m.text_ne_nil
  | callee name => simp [Piece.text]
  | numeral digits =>
      obtain ⟨n, rfl⟩ := h
      simp [Piece.text, Number.Numeral.text, n.whole_ne_nil]
  | literal value => simp [Piece.text, quote]
  | truth capitals value => cases capitals <;> cases value <;> simp [Piece.text, Piece.truthText]
  | reference r =>
      cases r with
      | cell letters row => exact (IsName.cell letters row).ne_nil
      | range letters first last => simp [Piece.text, Ref.text]
      | header name => exact (h.1 : IsName name.toList).ne_nil

theorem replaceFrom_textOf {ps : List Piece} (hchain : ps.IsChain Piece.Adjacent)
    (hvalid : ∀ p ∈ ps, p.Valid) (hwrite : ∀ p ∈ ps, WritesPiece find form write p)
    {before : Option Char} (hbefore : ∀ p ∈ ps.head?, p.isMark = false → Clear before) :
    replaceFrom (editOf find form) 0 before (textOf ps) = textOf (ps.flatMap write) := by
  induction ps generalizing before with
  | nil => rfl
  | cons p ps ih =>
      have hp := hwrite p (by simp) before (textOf ps) (hbefore p rfl) (ends_textOf hchain)
      rw [List.flatMap_cons, textOf_append, textOf_cons, hp]
      refine congrArg _ (ih hchain.tail (fun q hq => hvalid q (by simp [hq]))
        (fun q hq => hwrite q (by simp [hq])) ?_)
      intro q hq hmark
      exact clear_lastChar ((List.isChain_cons.1 hchain).1 q hq) (hvalid p (by simp)).text_ne_nil
        hmark before

/-- Replacing outside literals goes piece by piece, and literals stay. -/
theorem editUnquoted_textOf {ps : List Piece} (hchain : ps.IsChain Piece.Adjacent)
    (hvalid : ∀ p ∈ ps, p.Valid)
    (hwrite : ∀ p ∈ ps, p.isLiteral = false → WritesPiece find form write p)
    (hliteral : ∀ s, write (.literal s) = [.literal s]) :
    editUnquoted (replaceAll find form) (textOf ps) = textOf (ps.flatMap write) := by
  -- `qs` are the pieces since the last literal.
  suffices hgeneral : ∀ qs, (∀ q ∈ qs, q.isLiteral = false) → (qs ++ ps).IsChain Piece.Adjacent →
      (∀ q ∈ qs, q.Valid ∧ WritesPiece find form write q) →
      editUnquoted (replaceAll find form) (textOf qs ++ textOf ps) =
        textOf (qs.flatMap write) ++ textOf (ps.flatMap write) by
    simpa using hgeneral [] (by simp) (by simpa using hchain) (by simp)
  have hplain : ∀ qs, (∀ q ∈ qs, q.isLiteral = false) → qs.IsChain Piece.Adjacent →
      (∀ q ∈ qs, q.Valid ∧ WritesPiece find form write q) →
      Unquoted (textOf qs) ∧
        replaceAll find form (textOf qs) = textOf (qs.flatMap write) := by
    intro qs hqs hqchain hqvalid
    refine ⟨unquoted_textOf fun q hq => ⟨(hqvalid q hq).1, hqs q hq⟩, ?_⟩
    rw [replaceAll_eq]
    exact replaceFrom_textOf hqchain (fun q hq => (hqvalid q hq).1) (fun q hq => (hqvalid q hq).2)
      (fun _ _ _ c hc => by cases hc)
  clear hchain
  induction ps with
  | nil =>
      intro qs hqs hqchain hqvalid
      obtain ⟨hunquoted, hreplace⟩ := hplain qs hqs (by simpa using hqchain) hqvalid
      simpa [hreplace] using editUnquoted_eq_self_of_unquoted (replaceAll find form) hunquoted rfl
  | cons p ps ih =>
      intro qs hqs hqchain hqvalid
      have ih := ih (fun q hq => hvalid q (by simp [hq])) (fun q hq => hwrite q (by simp [hq]))
      cases hp : p.isLiteral with
      | true =>
          obtain ⟨s, rfl⟩ : ∃ s, p = .literal s := by
            cases p with
            | literal s => exact ⟨s, rfl⟩
            | _ => cases hp
          obtain ⟨hunquoted, hreplace⟩ := hplain qs hqs hqchain.left_of_append hqvalid
          have hrest := ih [] (by simp) hqchain.right_of_append.tail (by simp)
          have hcut := editUnquoted_append_quote (replaceAll find form) hunquoted rfl s (textOf ps)
          simp only [textOf_nil, List.nil_append, List.flatMap_nil] at hrest
          rw [hreplace, hrest] at hcut
          simpa [Piece.text, hliteral] using hcut
      | false =>
          have hstep := ih (qs ++ [p]) ?_ (by simpa using hqchain) ?_
          · simpa using hstep
          · simpa [or_imp, forall_and, hp] using hqs
          · intro q hq
            rcases List.mem_append.mp hq with hq | hq
            · exact hqvalid q hq
            · obtain rfl := List.mem_singleton.mp hq
              exact ⟨hvalid q (by simp), hwrite q (by simp) hp⟩

end

end SheetBoard.Formula
