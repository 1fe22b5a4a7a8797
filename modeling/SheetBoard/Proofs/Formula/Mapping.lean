import SheetBoard.Proofs.Formula.Literals

/-! What a function table makes of any text. Outside literals each call that the table maps takes
its name in scripts and loses the blanks in front of its parenthesis, and every other character is
copied. Some targets of the standard table end in a name that it maps, but only behind a point, so
one pass maps all calls. -/

namespace SheetBoard.Formula

/-- The table maps the call of `name` behind `before`: it stands outside literals where a word
starts, and it is no member of something else. -/
structure MappedCall (table : FunctionTable) (st : QuoteState) (before : Option Char)
    (name blanks : List Char) (target : String) : Prop where
  outside : st = .outside
  starts : startsWord before = true
  point : before ≠ some '.'
  isName : IsName name
  blank : ∀ c ∈ blanks, Text.isBlank c = true
  mapped : table.get? (.ofList name) = some target

/-- A mapped call stands at the front of the text. -/
def StartsMapped (table : FunctionTable) (st : QuoteState) (before : Option Char)
    (cs : List Char) : Prop :=
  ∃ name blanks rest target, cs = name ++ (blanks ++ '(' :: rest) ∧
    MappedCall table st before name blanks target

/-- Scanned from `st` on, the second text is the first one with its mapped calls renamed. A
character is copied only where no mapped call starts. -/
inductive Renamed (table : FunctionTable) :
    QuoteState → Option Char → List Char → List Char → Prop where
  | nil (st before) : Renamed table st before [] []
  | kept {st before c x y} (h : ¬StartsMapped table st before (c :: x))
    (hrest : Renamed table (st.step c) (some c) x y) : Renamed table st before (c :: x) (c :: y)
  | call {st before name blanks target x y} (h : MappedCall table st before name blanks target)
    (hrest : Renamed table .outside (some '(') x y) :
    Renamed table st before (name ++ (blanks ++ '(' :: x)) (target.toList ++ '(' :: y)

section

variable {table : FunctionTable} {st : QuoteState} {before : Option Char} {x y : List Char}

/-! ### Where no mapped call starts -/

theorem not_startsMapped_of_callName {cs : List Char}
    (h : FunctionTable.callName before cs = none) : ¬StartsMapped table st before cs := by
  rintro ⟨name, blanks, rest, target, heq, hcall⟩
  have hfind : FunctionTable.callName before cs = some (name, rest) :=
    callName_eq_some_iff.2 ⟨hcall.starts, hcall.isName, blanks, hcall.blank, heq⟩
  rw [h] at hfind
  cases hfind

theorem not_startsMapped_nil : ¬StartsMapped table st before [] := by
  rintro ⟨name, blanks, rest, target, heq, -⟩
  simp at heq

theorem not_startsMapped_quoted (hst : st ≠ .outside) (cs : List Char) :
    ¬StartsMapped table st before cs := by
  rintro ⟨name, blanks, rest, target, -, hcall⟩
  exact hst hcall.outside

theorem not_startsMapped_plain {c : Char} (hc : isNameStart c = false) (cs : List Char) :
    ¬StartsMapped table st before (c :: cs) :=
  not_startsMapped_of_callName (wordPattern_callName.plain before cs hc)

theorem MappedCall.unquoted {name blanks : List Char} {target : String}
    (h : MappedCall table st before name blanks target) :
    Unquoted (name ++ (blanks ++ ['('])) := by
  have hblanks : Unquoted blanks := fun c hc => isQuote_eq_false_of_isBlank (h.blank c hc)
  exact h.isName.unquoted.append (hblanks.append (by decide))

/-- A call does not go on behind a quote. -/
theorem StartsMapped.of_append {u : List Char} {c : Char} (hc : isQuote c = true)
    (h : StartsMapped table st before (u ++ c :: x)) : StartsMapped table st before u := by
  obtain ⟨name, blanks, rest, target, heq, hcall⟩ := h
  have heq : u ++ c :: x = (name ++ (blanks ++ ['('])) ++ rest := by simpa using heq
  rcases List.append_eq_append_iff.1 heq with ⟨inner, hinner, hrest⟩ | ⟨inner, rfl, -⟩
  · cases inner with
    | nil => exact ⟨name, blanks, [], target, by simpa using hinner.symm, hcall⟩
    | cons d inner =>
        obtain rfl : c = d := (List.cons.inj hrest).1
        have hd := hcall.unquoted c (by simp [hinner])
        rw [hc] at hd
        cases hd
  · exact ⟨name, blanks, inner, target, by simp, hcall⟩

/-! ### Edits of unquoted text -/

/-- The edits of unquoted text. -/
def FunctionTable.edit? (table : FunctionTable) : Option Char → List Char → Option Edit :=
  editOf callName table.form

theorem FunctionTable.apply_eq (table : FunctionTable) (cs : List Char) :
    table.apply cs =
      editStretches (replaceFrom table.edit? 0 none) (stretchesFrom .outside [] cs) := rfl

theorem replaces_call (table : FunctionTable) {name blanks : List Char}
    (hstarts : startsWord before = true) (hname : IsName name)
    (hblanks : ∀ c ∈ blanks, Text.isBlank c = true) (rest : List Char) :
    Replaces table.edit? before (name ++ (blanks ++ ['(']))
      ((table.form before name rest).getD (name ++ (blanks ++ ['(']))) rest := by
  refine replaces_found (by simp) (callName_eq_some_iff.2 ⟨hstarts, hname, blanks, hblanks, ?_⟩)
  simp

theorem MappedCall.replaceFrom_eq {name blanks : List Char} {target : String}
    (h : MappedCall table st before name blanks target) (rest : List Char) :
    replaceFrom table.edit? 0 before (name ++ (blanks ++ '(' :: rest)) =
      target.toList ++ '(' :: replaceFrom table.edit? 0 (some '(') rest := by
  have hform : table.form before name rest = some (target.toList ++ ['(']) := by
    simp [FunctionTable.form, h.point, h.mapped]
  have hreplaced := replaces_call table h.starts h.isName h.blank rest
  have hlast : lastChar before (name ++ (blanks ++ ['('])) = some '(' := by
    rw [lastChar_append, lastChar_append]
    rfl
  unfold Replaces at hreplaced
  rw [hform, hlast] at hreplaced
  simpa using hreplaced

/-- Blanks and a parenthesis are no start of a name and no quote. -/
theorem opening_plain {blanks : List Char} (h : ∀ c ∈ blanks, Text.isBlank c = true) :
    ∀ c ∈ blanks ++ ['('], isNameStart c = false ∧ isQuote c = false := by
  intro c hc
  rcases List.mem_append.mp hc with hc | hc
  · have hblank := h c hc
    exact ⟨isNameStart_eq_false (isNameChar_of_isBlank hblank), isQuote_eq_false_of_isBlank hblank⟩
  · obtain rfl := List.mem_singleton.mp hc
    exact ⟨rfl, rfl⟩

theorem form_of_not_startsMapped {name blanks rest : List Char} (hstarts : startsWord before = true)
    (hname : IsName name) (hblanks : ∀ c ∈ blanks, Text.isBlank c = true)
    (hmiss : ¬StartsMapped table .outside before (name ++ (blanks ++ '(' :: rest))) :
    table.form before name rest = none := by
  unfold FunctionTable.form
  split
  · rfl
  · rename_i hpoint
    rw [Option.map_eq_none_iff, Option.eq_none_iff_forall_ne_some]
    intro target hmapped
    exact hmiss ⟨name, blanks, rest, target, rfl,
      ⟨rfl, hstarts, by simpa using hpoint, hname, hblanks, hmapped⟩⟩

/-- A call that is not mapped is copied whole. No call starts in it, so this is the same as copying
its first character and going on. -/
theorem replaceFrom_kept {c : Char} {u : List Char}
    (hmiss : ¬StartsMapped table .outside before (c :: u)) :
    replaceFrom table.edit? 0 before (c :: u) = c :: replaceFrom table.edit? 0 (some c) u := by
  cases hfind : FunctionTable.callName before (c :: u) with
  | none => exact replaces_char hfind
  | some found =>
      obtain ⟨name, rest⟩ := found
      obtain ⟨hstarts, hname, blanks, hblanks, heq⟩ := callName_eq_some_iff.1 hfind
      have hform : table.form before name rest = none :=
        form_of_not_startsMapped hstarts hname hblanks (heq ▸ hmiss)
      have hcall := replaces_call table hstarts hname hblanks rest
      rw [hform, Option.getD_none] at hcall
      obtain ⟨d, w, rfl, hd⟩ := hname.exists_cons
      obtain ⟨rfl, rfl⟩ : c = d ∧ u = w ++ (blanks ++ '(' :: rest) := by simpa using heq
      have hword := isWordChar_of_isNameChar (isNameChar_of_isNameStart hd)
      have hinside : Replaces table.edit? (some c) w w (blanks ++ ['('] ++ rest) :=
        wordPattern_callName.replaces_inside hword fun e he => hname.all e (by simp [he])
      have hopening : Replaces table.edit? (lastChar (some c) w) (blanks ++ ['('])
          (blanks ++ ['(']) rest :=
        wordPattern_callName.replaces_plain fun e he => (opening_plain hblanks e he).1
      have hafter := hinside.append hopening
      unfold Replaces at hcall hafter
      calc replaceFrom table.edit? 0 before (c :: (w ++ (blanks ++ '(' :: rest)))
        _ = c :: (w ++ (blanks ++ ['(']) ++
              replaceFrom table.edit? 0 (lastChar (some c) (w ++ (blanks ++ ['(']))) rest) := by
            simpa [lastChar_cons] using hcall
        _ = c :: replaceFrom table.edit? 0 (some c) (w ++ (blanks ++ '(' :: rest)) := by
            rw [← hafter]
            simp

theorem renamed_replaceFrom {u : List Char} (hu : Unquoted u) (before : Option Char) :
    Renamed table .outside before u (replaceFrom table.edit? 0 before u) := by
  induction hn : u.length using Nat.strong_induction_on generalizing u before with
  | _ n ih =>
      cases u with
      | nil => exact .nil _ _
      | cons c u =>
          by_cases hstarts : StartsMapped table .outside before (c :: u)
          · obtain ⟨name, blanks, rest, target, heq, hcall⟩ := hstarts
            have hshort : rest.length < n := by
              rw [← hn, heq]
              simp only [List.length_append, List.length_cons]
              omega
            rw [heq, hcall.replaceFrom_eq]
            exact .call hcall
              (ih rest.length hshort (fun d hd => hu d (by simp [heq, hd])) (some '(') rfl)
          · rw [replaceFrom_kept hstarts]
            refine .kept hstarts ?_
            rw [QuoteState.step_outside (hu c (by simp))]
            exact ih u.length (by simp [← hn]) hu.tail (some c) rfl

/-! ### Along the literals of a text -/

/-- A scan that meets a quote goes on in a literal. -/
theorem Renamed.append_quoted {u v : List Char} (h : Renamed table st before u v)
    (hst : st = .outside) (hu : Unquoted u) {c : Char} (hc : isQuote c = true)
    (hrest : Renamed table (.inside c) (some c) x y) :
    Renamed table .outside before (u ++ c :: x) (v ++ c :: y) := by
  induction h with
  | nil st before =>
      refine .kept (not_startsMapped_plain (isNameStart_eq_false (isNameChar_of_isQuote hc)) _) ?_
      rwa [QuoteState.step_mark hc]
  | @kept _ _ d _ _ hmiss _ ih =>
      subst hst
      have hstep := QuoteState.step_outside (hu d (by simp))
      refine .kept (fun hstarts => hmiss (hstarts.of_append hc)) ?_
      rw [hstep]
      exact ih hstep hu.tail
  | call hcall _ ih =>
      subst hst
      have hrenamed := Renamed.call hcall (ih rfl fun d hd => hu d (by simp [hd]))
      simpa using hrenamed

/-- A quote in front counts as no character in front. -/
theorem replaceFrom_edit?_quote (hbefore : ∀ c ∈ before, isQuote c = true) (u : List Char) :
    replaceFrom table.edit? 0 before u = replaceFrom table.edit? 0 none u := by
  cases before with
  | none => rfl
  | some q =>
      have hq := hbefore q rfl
      have hword : Text.isWordChar q = false := by
        obtain rfl | rfl : q = '"' ∨ q = '\'' := by simpa [isQuote] using hq
        · decide
        · decide
      have hpoint : q ≠ '.' := by
        rintro rfl
        cases hq
      have hedit : ∀ cs, table.edit? (some q) cs = table.edit? none cs := by
        intro cs
        simp [FunctionTable.edit?, editOf, FunctionTable.callName, FunctionTable.form, startsWord,
          hword, hpoint]
      cases u with
      | nil => rfl
      | cons c u =>
          unfold replaceFrom
          rw [hedit]

/-- What is held of an unquoted stretch is edited when the stretch ends. -/
theorem renamed_closeStretch {held : List Char} (hheld : Unquoted held.reverse)
    (hbefore : ∀ c ∈ before, isQuote c = true) : Renamed table .outside before held.reverse
      (editStretches (replaceFrom table.edit? 0 none) (closeStretch .outside held)) := by
  have hclose : editStretches (replaceFrom table.edit? 0 none) (closeStretch .outside held) =
      replaceFrom table.edit? 0 none held.reverse := by
    cases held <;> simp [closeStretch, editStretches, replaceFrom]
  rw [hclose, ← replaceFrom_edit?_quote hbefore]
  exact renamed_replaceFrom hheld before

/-- In a literal, what is held of it is copied, and outside what is held is still to be edited. -/
theorem renamed_stretchesFrom (cs held : List Char) :
    (Unquoted held.reverse → ∀ before, (∀ c ∈ before, isQuote c = true) →
      Renamed table .outside before (held.reverse ++ cs)
        (editStretches (replaceFrom table.edit? 0 none) (stretchesFrom .outside held cs))) ∧
    ∀ st, st ≠ .outside → st.Marked → ∃ y,
      editStretches (replaceFrom table.edit? 0 none) (stretchesFrom st held cs) =
        held.reverse ++ y ∧ ∀ before, Renamed table st before cs y := by
  induction cs generalizing held with
  | nil =>
      refine ⟨fun hheld before hbefore => ?_, fun st hst _ => ⟨[], ?_, fun before => .nil _ _⟩⟩
      · simpa [stretchesFrom_nil] using renamed_closeStretch hheld hbefore
      · cases held <;> simp [stretchesFrom_nil, closeStretch, editStretches, hst]
  | cons c cs ih =>
      refine ⟨fun hheld before hbefore => ?_, fun st hst hmarked => ?_⟩
      · cases hc : isQuote c with
        | false =>
            rw [stretchesFrom_plain hc]
            have hgrown : Unquoted (c :: held).reverse := by
              rw [List.reverse_cons]
              exact hheld.append (by simpa [Unquoted] using hc)
            simpa using (ih (c :: held)).1 hgrown before hbefore
        | true =>
            have hstep := QuoteState.step_mark hc
            have hopen : QuoteState.outside.step c ≠ .outside := by simp [hstep]
            obtain ⟨y, hy, hrenamed⟩ := (ih [c]).2 (.inside c) (by simp) hc
            rw [stretchesFrom_open hopen, hstep, editStretches_append, hy]
            exact (renamed_closeStretch hheld hbefore).append_quoted rfl hheld hc
              (hrenamed (some c))
      · by_cases hclose : st.step c = .outside
        · have hquote := hmarked.isQuote_of_step hst hclose
          have hrest := (ih []).1 (by simp [Unquoted]) (some c) (by simpa using hquote)
          rw [← hclose] at hrest
          refine ⟨_, ?_, fun before => .kept (not_startsMapped_quoted hst _) hrest⟩
          rw [stretchesFrom_close hst hclose, editStretches_literal, hclose]
          simp
        · obtain ⟨y, hy, hrenamed⟩ := (ih (c :: held)).2 (st.step c) hclose (hmarked.run [c])
          refine ⟨c :: y, ?_, fun before =>
            .kept (not_startsMapped_quoted hst _) (hrenamed (some c))⟩
          rw [stretchesFrom_inside hst hclose, hy]
          simp

theorem renamed_apply (table : FunctionTable) (x : List Char) :
    Renamed table .outside none x (table.apply x) := by
  rw [FunctionTable.apply_eq]
  exact (renamed_stretchesFrom x []).1 (by simp [Unquoted]) none (by simp)

/-! ### One pass maps all calls -/

/-- No mapped call is left in the text. -/
def AllMapped (table : FunctionTable) (st : QuoteState) (before : Option Char)
    (y : List Char) : Prop :=
  ∀ a cs, y = a ++ cs → ¬StartsMapped table (st.run a) (lastChar before a) cs

theorem Renamed.eq_of_allMapped (h : Renamed table st before x y)
    (hall : AllMapped table st before x) : y = x := by
  induction h with
  | nil => rfl
  | @kept _ _ c _ _ _ _ ih =>
      refine congrArg _ (ih fun a cs heq => ?_)
      exact hall (c :: a) cs (congrArg _ heq)
  | call hcall _ _ => exact absurd ⟨_, _, _, _, rfl, hcall⟩ (hall [] _ rfl)

/-- Targets are members, and the table maps none of them. -/
def FunctionTable.Stable (table : FunctionTable) : Prop :=
  ∀ name target, table.get? name = some target →
    IsMember target.toList ∧ table.get? target = none

def inMember (c : Char) : Bool := isNameChar c || c = '.'

/-- A member holds no blanks, so the name of a call that starts in it reaches its end. -/
theorem IsMember.eq_of_call {a b name blanks rest tail : List Char} (h : IsMember (a ++ b))
    (hname : IsName name) (hblanks : ∀ c ∈ blanks, Text.isBlank c = true)
    (heq : b ++ '(' :: rest = name ++ (blanks ++ '(' :: tail)) : b = name := by
  have hb : ∀ c ∈ b, inMember c = true := fun c hc => by
    simpa [inMember] using h.all c (by simp [hc])
  have hnamed : ∀ c ∈ name, inMember c = true := fun c hc => by simp [inMember, hname.all c hc]
  have hstop : (blanks ++ '(' :: tail).head?.any inMember = false := by
    cases blanks with
    | nil => rfl
    | cons c blanks =>
        have hblank := hblanks c (by simp)
        have hpoint : c ≠ '.' := by
          rintro rfl
          cases hblank
        simp [inMember, isNameChar_of_isBlank hblank, hpoint]
  calc b = (b ++ '(' :: rest).takeWhile inMember := (Number.takeWhile_append_of_all hb rfl).symm
    _ = (name ++ (blanks ++ '(' :: tail)).takeWhile inMember := by rw [heq]
    _ = name := Number.takeWhile_append_of_all hnamed hstop

/-- A target is no mapped call, nor is what follows a point in it. -/
theorem IsMember.not_startsMapped {a b : List Char} (h : IsMember (a ++ b))
    (hget : table.get? (.ofList (a ++ b)) = none) (rest : List Char) :
    ¬StartsMapped table st (lastChar before a) (b ++ '(' :: rest) := by
  rintro ⟨name, blanks, tail, target, heq, hcall⟩
  obtain rfl := h.eq_of_call hcall.isName hcall.blank heq
  rcases List.eq_nil_or_concat a with rfl | ⟨front, c, hfront⟩
  · rw [List.nil_append, hcall.mapped] at hget
    cases hget
  · rw [List.concat_eq_append] at hfront
    subst hfront
    rw [lastChar_append] at hcall
    rcases h.all c (by simp) with hc | rfl
    · have hstarts : startsWord (some c) = true := hcall.starts
      rw [startsWord_of_isWordChar (isWordChar_of_isNameChar hc)] at hstarts
      cases hstarts
    · exact hcall.point rfl

section

variable (hstable : table.Stable)

include hstable

theorem Renamed.exists_cons {c : Char} (h : Renamed table st before x (c :: y))
    (hc : startsWord before = false ∨ isNameStart c = false) :
    ∃ z, x = c :: z ∧ Renamed table (st.step c) (some c) z y := by
  generalize hout : c :: y = out at h
  cases h with
  | nil => cases hout
  | kept _ hrest =>
      obtain ⟨rfl, rfl⟩ := List.cons.inj hout
      exact ⟨_, rfl, hrest⟩
  | call hcall _ =>
      obtain ⟨d, tail, htail, hd⟩ := (hstable _ _ hcall.mapped).1.exists_cons
      rw [htail] at hout
      obtain ⟨rfl, -⟩ := List.cons.inj hout
      rcases hc with hword | hplain
      · rw [hcall.starts] at hword
        cases hword
      · rw [hd] at hplain
        cases hplain

theorem Renamed.exists_inside {c : Char} {w : List Char} (hc : Text.isWordChar c = true)
    (hw : ∀ d ∈ w, isNameChar d = true) (h : Renamed table .outside (some c) x (w ++ y)) :
    ∃ z, x = w ++ z ∧ Renamed table .outside (lastChar (some c) w) z y := by
  induction w generalizing c x with
  | nil => exact ⟨x, rfl, h⟩
  | cons d w ih =>
      have hd := hw d (by simp)
      obtain ⟨tail, rfl, htail⟩ := h.exists_cons hstable (.inl (startsWord_of_isWordChar hc))
      rw [QuoteState.step_outside (isQuote_of_isNameChar hd)] at htail
      obtain ⟨z, rfl, hz⟩ :=
        ih (isWordChar_of_isNameChar hd) (fun e he => hw e (by simp [he])) htail
      exact ⟨z, rfl, hz⟩

theorem Renamed.exists_plain {w : List Char}
    (hw : ∀ c ∈ w, isNameStart c = false ∧ isQuote c = false)
    (h : Renamed table .outside before x (w ++ y)) : ∃ z, x = w ++ z := by
  induction w generalizing before x with
  | nil => exact ⟨x, rfl⟩
  | cons c w ih =>
      obtain ⟨hstart, hquote⟩ := hw c (by simp)
      obtain ⟨tail, rfl, htail⟩ := h.exists_cons hstable (.inr hstart)
      rw [QuoteState.step_outside hquote] at htail
      obtain ⟨z, rfl⟩ := ih (fun d hd => hw d (by simp [hd])) htail
      exact ⟨z, rfl⟩

/-- Renaming does not make a call of what was none. -/
theorem Renamed.startsMapped_of_kept {c : Char} (h : Renamed table (st.step c) (some c) x y)
    (hstarts : StartsMapped table st before (c :: y)) : StartsMapped table st before (c :: x) := by
  obtain ⟨name, blanks, rest, target, heq, hcall⟩ := hstarts
  obtain ⟨d, w, rfl, hd⟩ := hcall.isName.exists_cons
  obtain ⟨rfl, rfl⟩ : c = d ∧ y = w ++ (blanks ++ '(' :: rest) := by simpa using heq
  have hchar := isNameChar_of_isNameStart hd
  rw [hcall.outside, QuoteState.step_outside (isQuote_of_isNameChar hchar)] at h
  obtain ⟨z, rfl, hz⟩ := h.exists_inside hstable (isWordChar_of_isNameChar hchar)
    fun e he => hcall.isName.all e (by simp [he])
  have hopening : blanks ++ '(' :: rest = blanks ++ ['('] ++ rest := by simp
  rw [hopening] at hz
  obtain ⟨z, rfl⟩ := hz.exists_plain hstable (opening_plain hcall.blank)
  exact ⟨c :: w, blanks, z, target, by simp, hcall⟩

theorem Renamed.allMapped (h : Renamed table st before x y) : AllMapped table st before y := by
  induction h with
  | nil st before =>
      intro a cs heq
      obtain ⟨rfl, rfl⟩ := List.append_eq_nil_iff.1 heq.symm
      exact not_startsMapped_nil
  | @kept _ _ c _ _ hmiss hrest ih =>
      intro a cs heq
      cases a with
      | nil =>
          subst heq
          exact fun hstarts => hmiss (hrest.startsMapped_of_kept hstable hstarts)
      | cons d a =>
          obtain ⟨rfl, htail⟩ := List.cons.inj heq
          exact ih a cs htail
  | @call st before _ _ target _ y hcall _ ih =>
      intro a cs heq
      obtain ⟨hmember, hget⟩ := hstable _ _ hcall.mapped
      obtain rfl := hcall.outside
      rcases List.append_eq_append_iff.1 heq with ⟨inner, rfl, hinner⟩ | ⟨inner, hinner, rfl⟩
      · cases inner with
        | nil =>
            obtain rfl : '(' :: y = cs := hinner
            exact not_startsMapped_plain rfl y
        | cons d inner =>
            obtain ⟨rfl, rfl⟩ := List.cons.inj hinner
            rw [QuoteState.run_append, hmember.unquoted.run, lastChar_append]
            exact ih inner cs rfl
      · rw [hinner] at hmember
        refine hmember.not_startsMapped ?_ y
        rwa [← hinner, String.ofList_toList]

/-- Renaming does not touch literals. What is held matters only in a literal. -/
theorem Renamed.literalTexts_eq (h : Renamed table st before x y) (held held' : List Char)
    (hheld : st ≠ .outside → held = held') :
    literalTexts (stretchesFrom st held x) = literalTexts (stretchesFrom st held' y) := by
  induction h generalizing held held' with
  | nil st before =>
      by_cases hst : st = .outside
      · subst hst
        simp [stretchesFrom_nil]
      · rw [hheld hst]
  | @kept st before c x y _ _ ih =>
      by_cases hst : st = .outside
      · subst hst
        cases hc : isQuote c with
        | false =>
            rw [QuoteState.step_outside hc] at ih
            rw [stretchesFrom_plain hc, stretchesFrom_plain hc]
            exact ih _ _ (absurd rfl)
        | true =>
            have hopen : QuoteState.outside.step c ≠ .outside := by simp [QuoteState.step_mark hc]
            rw [stretchesFrom_open hopen, stretchesFrom_open hopen]
            simpa using ih [c] [c] fun _ => rfl
      · obtain rfl := hheld hst
        by_cases hclose : st.step c = .outside
        · rw [hclose] at ih
          rw [stretchesFrom_close hst hclose, stretchesFrom_close hst hclose]
          simpa using ih [] [] fun _ => rfl
        · rw [stretchesFrom_inside hst hclose, stretchesFrom_inside hst hclose]
          exact ih _ _ fun _ => rfl
  | @call st before name blanks target x y hcall _ ih =>
      obtain rfl := hcall.outside
      have hfrom := hcall.unquoted
      have hto : Unquoted (target.toList ++ ['(']) :=
        (hstable _ _ hcall.mapped).1.unquoted.append (by decide)
      have hsame := ih [] [] fun _ => rfl
      rw [literalTexts_stretchesFrom, literalTexts_stretchesFrom] at hsame ⊢
      calc literals (name ++ (blanks ++ '(' :: x))
        _ = literals (name ++ (blanks ++ ['(']) ++ x) := by simp
        _ = literals x := by rw [literals_append hfrom.closed, hfrom.literals, List.nil_append]
        _ = literals y := hsame
        _ = literals (target.toList ++ ['('] ++ y) := by
            rw [literals_append hto.closed, hto.literals, List.nil_append]
        _ = literals (target.toList ++ '(' :: y) := by simp

end

end

/-! ### The standard table -/

namespace FunctionTable

theorem stable_standard : standard.Stable := by
  have hunmapped : ∀ entry ∈ standard.entries, standard.get? entry.2 = none := by decide +kernel
  intro name target hget
  obtain ⟨entry, hentry, rfl⟩ := target_of_get? hget
  exact ⟨(standard_targets entry hentry).1, hunmapped entry hentry⟩

/-- The standard table renames the calls that it maps, copies all else, and leaves no call that it
maps, so that applying it again changes nothing. -/
theorem renamed_apply_standard (x : List Char) :
    Renamed standard .outside none x (standard.apply x) ∧
    literals (standard.apply x) = literals x ∧
    (∀ a name blanks rest target, standard.apply x = a ++ (name ++ (blanks ++ '(' :: rest)) →
      ¬MappedCall standard (QuoteState.outside.run a) a.getLast? name blanks target) ∧
    standard.apply (standard.apply x) = standard.apply x := by
  have hrenamed := renamed_apply standard x
  have hall := hrenamed.allMapped stable_standard
  refine ⟨hrenamed, ?_, ?_, ?_⟩
  · exact (hrenamed.literalTexts_eq stable_standard [] [] fun _ => rfl).symm
  · intro a name blanks rest target heq hcall
    refine hall a _ heq ⟨name, blanks, rest, target, rfl, ?_⟩
    rwa [lastChar_none]
  · exact (renamed_apply standard (standard.apply x)).eq_of_allMapped hall

/-- The table maps `round`, but not behind the point that it wrote itself. -/
theorem renamed_apply_standard_round :
    standard.apply "round (SUM(x)) & \"ABS (\"".toList =
      "Math.".toList ++ ("round".toList ++ ([] ++ '(' :: "arraySum(x)) & \"ABS (\"".toList)) ∧
    ¬MappedCall standard (QuoteState.outside.run "Math.".toList) "Math.".toList.getLast?
      "round".toList [] "Math.round" := by
  have heq : standard.apply "round (SUM(x)) & \"ABS (\"".toList =
      "Math.".toList ++ ("round".toList ++ ([] ++ '(' :: "arraySum(x)) & \"ABS (\"".toList)) := by
    decide +kernel
  exact ⟨heq, (renamed_apply_standard _).2.2.1 _ _ _ _ _ heq⟩

end FunctionTable

end SheetBoard.Formula
