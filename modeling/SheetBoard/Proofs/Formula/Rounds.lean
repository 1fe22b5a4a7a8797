import Mathlib.Logic.Relation
import SheetBoard.Proofs.Formula.Balance
import SheetBoard.Proofs.Formula.Statements

/-! The calls of a keyword in any text, and the rounds in which they are written as statements. All
calls are counted along with one scan of the text, so a round can be followed from the calls around
it, in it and behind it: it takes away one call and leaves the arguments of all others. -/

namespace SheetBoard.Formula

/-! ### The calls of a text -/

/-- The characters right before a place that are part of a name, last one first. -/
def wordStep (st : QuoteState) (word : List Char) (c : Char) : List Char :=
  if st = .outside ∧ joinsName c then c :: word else []

def wordAfter (st : QuoteState) (word : List Char) : List Char → List Char
  | [] => word
  | c :: rest => wordAfter (st.step c) (wordStep st word c) rest

/-- The calls of a keyword from a place on, each with the count of its arguments up to the end. -/
def callsFrom (keyword : List Char) (st : QuoteState) (word : List Char) : List Char → List Tally
  | [] => []
  | c :: rest =>
    let others := callsFrom keyword (st.step c) (wordStep st word c) rest
    if punctuation st c = .left ∧ word.reverse.map Char.toUpper = keyword then
      Tally.start.run (st.step c) rest :: others
    else others

/-- The calls of a keyword in a text. -/
def calls (k : Keyword) (cs : List Char) : List Tally := callsFrom k.spelling .outside [] cs

theorem callsFrom_cons (keyword : List Char) (st : QuoteState) (word : List Char) (c : Char)
    (rest : List Char) : callsFrom keyword st word (c :: rest) =
      (if punctuation st c = .left ∧ word.reverse.map Char.toUpper = keyword then
        [Tally.start.run (st.step c) rest] else []) ++
        callsFrom keyword (st.step c) (wordStep st word c) rest := by
  rw [callsFrom]
  split <;> rfl

theorem wordAfter_append (st : QuoteState) (word a b : List Char) :
    wordAfter st word (a ++ b) = wordAfter (st.run a) (wordAfter st word a) b := by
  induction a generalizing st word with
  | nil => rfl
  | cons c a ih => exact ih _ _

/-- Behind a character that is no part of a name, no word is open. -/
theorem wordAfter_concat {c : Char} (hc : joinsName c = false) (st : QuoteState)
    (word a : List Char) : wordAfter st word (a ++ [c]) = [] := by
  rw [wordAfter_append, wordAfter, wordAfter, wordStep, if_neg (by simp [hc])]

section

variable {keyword : List Char} {st : QuoteState} {word : List Char}

/-- What follows is counted by the calls before it, and has calls of its own. -/
theorem callsFrom_append (a b : List Char) : callsFrom keyword st word (a ++ b) =
    ((callsFrom keyword st word a).map fun t => t.run (st.run a) b) ++
      callsFrom keyword (st.run a) (wordAfter st word a) b := by
  induction a generalizing st word with
  | nil => rfl
  | cons c a ih =>
      rw [List.cons_append, callsFrom_cons, callsFrom_cons, ih, List.map_append, List.append_assoc]
      congr 1
      split
      · rw [Tally.run_append]
        rfl
      · rfl

theorem callsFrom_eq_nil {x : List Char} (h : '(' ∉ x) : callsFrom keyword st word x = [] := by
  induction x generalizing st word with
  | nil => rfl
  | cons c x ih =>
      obtain ⟨hc, hx⟩ := not_or.1 (mt List.mem_cons.2 h)
      have hleft : punctuation st c ≠ .left := fun hp => hc (punctuation_eq_left hp).2.symm
      rw [callsFrom_cons, if_neg fun hcall => hleft hcall.1, ih hx, List.nil_append]

theorem below_of_mem_callsFrom {x : List Char} {e e' : Nat} (h : depthAfter e st x = some e')
    {t : Tally} (ht : t ∈ callsFrom keyword st word x) : t.Below e' := by
  induction x generalizing e st word with
  | nil => cases ht
  | cons c x ih =>
      obtain ⟨f, hstep, hrest⟩ := Option.bind_eq_some_iff.1 h
      rw [callsFrom_cons, List.mem_append] at ht
      rcases ht with ht | ht
      · split at ht
        · rename_i hcall
          rw [hcall.1] at hstep
          obtain rfl : e + 1 = f := Option.some.inj hstep
          obtain rfl := List.mem_singleton.1 ht
          have hstart : Tally.start.Below (e + 1) := Nat.succ_pos e
          exact hstart.run hrest
        · cases ht
      · exact ih hrest ht

/-- The calls of a balanced text are over at its end. -/
theorem Balanced.callsFrom_append {x : List Char} (hx : Balanced x) (rest : List Char) :
    callsFrom keyword .outside word (x ++ rest) = callsFrom keyword .outside word x ++
      callsFrom keyword .outside (wordAfter .outside word x) rest := by
  have hover : ∀ t ∈ callsFrom keyword .outside word x, t.run .outside rest = t := fun t ht =>
    (below_of_mem_callsFrom hx.depth ht).run_eq_self _ _
  rw [Formula.callsFrom_append, hx.closed, List.map_congr_left hover, List.map_id']

end

theorem length_callsFrom_le (keyword : List Char) (st : QuoteState) (word cs : List Char) :
    (callsFrom keyword st word cs).length ≤ cs.length := by
  induction cs generalizing st word with
  | nil => exact Nat.le_refl 0
  | cons c cs ih =>
      have hrest := ih (st.step c) (wordStep st word c)
      rw [callsFrom_cons, List.length_append, List.length_cons]
      split
      · rw [List.length_singleton]
        omega
      · rw [List.length_nil]
        omega

/-! ### The leftmost call -/

theorem joinsName_of_isQuote {c : Char} (h : isQuote c = true) : joinsName c = false := by
  obtain rfl | rfl : c = '"' ∨ c = '\'' := by simpa [isQuote] using h
  all_goals decide

section

variable (k : Keyword) {before : Option Char}

theorem startsCall_of_any (h : before.any joinsName = false) (cs : List Char) :
    startsCall k.spelling before cs = startsCall k.spelling none cs := by
  simp [startsCall, h]

theorem startsCall_word {word : List Char} (h : word.map Char.toUpper = k.spelling)
    (rest : List Char) : startsCall k.spelling none (word ++ '(' :: rest) = true := by
  have hlength : k.spelling.length = word.length := by rw [← h, List.length_map]
  simp [startsCall, hlength, h]

end

/-- Along a text, the characters `word` of a name are open behind the character `before`: outside
literals if that character belongs to a name, and never within one. -/
structure OpenWord (st : QuoteState) (before : Option Char) (word : List Char) : Prop where
  marked : st.Marked
  chars : ∀ c ∈ word, joinsName c = true
  isOpen : st = .outside → before.any joinsName = !word.isEmpty
  inside : st ≠ .outside → word = []

namespace OpenWord

variable {st : QuoteState} {before : Option Char} {word : List Char}

theorem start : OpenWord .outside none [] :=
  ⟨trivial, List.forall_mem_nil _, fun _ => rfl, fun _ => rfl⟩

theorem step (h : OpenWord st before word) (c : Char) :
    OpenWord (st.step c) (some c) (wordStep st word c) where
  marked := h.marked.run [c]
  chars := by
    unfold wordStep
    split
    · rename_i hjoins
      exact List.forall_mem_cons.2 ⟨hjoins.2, h.chars⟩
    · exact List.forall_mem_nil _
  isOpen := by
    intro hstep
    by_cases houtside : st = .outside
    · subst houtside
      cases hc : joinsName c <;> simp [wordStep, hc]
    · have hc : joinsName c = false :=
        joinsName_of_isQuote (h.marked.isQuote_of_step houtside hstep)
      simp [wordStep, houtside, hc]
  inside := by
    intro hstep
    refine if_neg ?_
    rintro ⟨rfl, hc⟩
    refine hstep (QuoteState.step_outside ?_)
    cases hquote : isQuote c with
    | false => rfl
    | true =>
        rw [joinsName_of_isQuote hquote] at hc
        cases hc

end OpenWord

/-- What the search for a call knows of the word that is open at a place: it started no call. -/
structure Tracks (k : Keyword) (st : QuoteState) (before : Option Char) (word cs : List Char) :
    Prop extends OpenWord st before word where
  noCall : word ≠ [] → startsCall k.spelling none (word.reverse ++ cs) = false

namespace Tracks

variable {k : Keyword} {st : QuoteState} {before : Option Char} {word : List Char} {c : Char}
  {cs : List Char}

theorem start (k : Keyword) (cs : List Char) : Tracks k .outside none [] cs :=
  ⟨.start, absurd rfl⟩

variable (h : Tracks k st before word (c :: cs))
include h

/-- No call has its parenthesis here. -/
theorem not_left : ¬(punctuation st c = .left ∧ word.reverse.map Char.toUpper = k.spelling) := by
  rintro ⟨hleft, hspelling⟩
  obtain ⟨rfl, rfl⟩ := punctuation_eq_left hleft
  have hne : word ≠ [] := by
    rintro rfl
    exact k.spelling_ne_nil hspelling.symm
  have hstarts := startsCall_word k hspelling cs
  rw [h.noCall hne] at hstarts
  cases hstarts

theorem word_eq_nil (hst : st = .outside)
    (hstarts : startsCall k.spelling before (c :: cs) = true) : word = [] := by
  have hbefore : before.any joinsName = false := by
    simp only [startsCall, Bool.and_eq_true, Bool.not_eq_true'] at hstarts
    exact hstarts.1.1
  simpa [hbefore] using h.isOpen hst

theorem step (hcall : ¬(st = .outside ∧ startsCall k.spelling before (c :: cs) = true)) :
    Tracks k (st.step c) (some c) (wordStep st word c) cs where
  toOpenWord := h.toOpenWord.step c
  noCall := by
    intro hne
    have hjoins : st = .outside ∧ joinsName c := by
      by_contra hjoins
      exact hne (if_neg hjoins)
    rw [wordStep, if_pos hjoins]
    cases word with
    | nil =>
        have hbefore : before.any joinsName = false := by simpa using h.isOpen hjoins.1
        have hstarts : startsCall k.spelling before (c :: cs) = false := by
          simpa [hjoins.1] using hcall
        rwa [startsCall_of_any k hbefore] at hstarts
    | cons d word => simpa using h.noCall (by simp)

end Tracks

/-- The search finds the first call, where no word is open, or there is none. -/
theorem splitAtCall_first {k : Keyword} {st : QuoteState} {before : Option Char}
    {word cs : List Char} (h : Tracks k st before word cs) :
    (splitAtCall k.spelling st before cs = none ∧ callsFrom k.spelling st word cs = []) ∨
    ∃ head tail, splitAtCall k.spelling st before cs = some (head, tail) ∧
      wordAfter st word head = [] ∧ callsFrom k.spelling st word head = [] := by
  induction cs generalizing st before word with
  | nil => exact .inl ⟨rfl, rfl⟩
  | cons c cs ih =>
      rw [splitAtCall]
      by_cases hcall : st = .outside ∧ startsCall k.spelling before (c :: cs) = true
      · rw [if_pos hcall]
        exact .inr ⟨[], _, rfl, h.word_eq_nil hcall.1 hcall.2, rfl⟩
      · rw [if_neg hcall]
        rcases ih (h.step hcall) with ⟨hnone, hcalls⟩ | ⟨head, tail, hsome, hopen, hcalls⟩
        · refine .inl ⟨by rw [hnone]; rfl, ?_⟩
          rw [callsFrom_cons, if_neg h.not_left, hcalls]
          rfl
        · refine .inr ⟨c :: head, tail, by rw [hsome]; rfl, hopen, ?_⟩
          rw [callsFrom_cons, if_neg h.not_left, hcalls]
          rfl

/-! ### Passing over text -/

theorem isNameChar_of_joinsName {c : Char} (h : joinsName c = true) :
    isNameChar c = true ∨ c = '.' := by
  have hletter : c.isAlpha =
      (decide ('A' ≤ c ∧ c ≤ 'Z') || decide ('a' ≤ c) && decide (c ≤ 'z')) := rfl
  have hdigit : c.isDigit = Text.isAsciiDigit c := rfl
  simp only [joinsName, Char.isAlphanum, hletter, hdigit, Bool.or_eq_true, Bool.and_eq_true,
    decide_eq_true_eq] at h
  simp only [isNameChar, isNameStart, Text.isAsciiLetter, Bool.or_eq_true, Bool.and_eq_true,
    decide_eq_true_eq]
  tauto

theorem joinsName_of_isBlank {c : Char} (h : Text.isBlank c = true) : joinsName c = false := by
  cases hc : joinsName c with
  | false => rfl
  | true =>
      rcases isNameChar_of_joinsName hc with hname | rfl
      · rw [isBlank_of_isNameChar hname] at h
        cases h
      · cases h

theorem isNameChar_of_spelling {k : Keyword} {name : List Char}
    (h : name.map Char.toUpper = k.spelling) : ∀ c ∈ name, isNameChar c = true := by
  intro c hc
  have hmem : c.toUpper ∈ k.spelling := h ▸ List.mem_map_of_mem hc
  exact isNameChar_of_isNameStart
    (isNameStart_of_isCapital_toUpper (k.isCapital_spelling _ hmem))

theorem wordAfter_name {name : List Char} (h : ∀ c ∈ name, isNameChar c = true)
    (word : List Char) : wordAfter .outside word name = name.reverse ++ word := by
  induction name generalizing word with
  | nil => rfl
  | cons c name ih =>
      have hc := h c (by simp)
      rw [wordAfter, QuoteState.step_outside (isQuote_of_isNameChar hc), wordStep,
        if_pos ⟨rfl, joinsName_of_isNameChar hc⟩, ih fun d hd => h d (by simp [hd])]
      simp

section

variable {keyword word : List Char}

theorem callsFrom_name {name : List Char} (h : ∀ c ∈ name, isNameChar c = true)
    (rest : List Char) : callsFrom keyword .outside word (name ++ rest) =
      callsFrom keyword .outside (name.reverse ++ word) rest := by
  have hleft : '(' ∉ name := open_notMem h
  have hunquoted : Unquoted name := fun c hc => isQuote_of_isNameChar (h c hc)
  rw [callsFrom_append, callsFrom_eq_nil hleft, hunquoted.run, wordAfter_name h]
  rfl

/-- Text without parentheses that ends no name is passed over. -/
theorem callsFrom_gap {gap : List Char} (hne : gap ≠ [])
    (h : ∀ c ∈ gap, isQuote c = false ∧ c ≠ '(')
    (hlast : gap.getLast?.any joinsName = false) (rest : List Char) :
    callsFrom keyword .outside word (gap ++ rest) = callsFrom keyword .outside [] rest := by
  have hleft : '(' ∉ gap := fun hmem => (h '(' hmem).2 rfl
  have hunquoted : Unquoted gap := fun c hc => (h c hc).1
  have hword : wordAfter .outside word gap = [] := by
    rw [← List.dropLast_append_getLast hne]
    refine wordAfter_concat ?_ _ _ _
    simpa [List.getLast?_eq_some_getLast hne] using hlast
  rw [callsFrom_append, callsFrom_eq_nil hleft, hunquoted.run, hword]
  rfl

/-- A group: the calls in it are over at its end. -/
theorem callsFrom_group {x : List Char} (hx : Balanced x) (tail : List Char) :
    callsFrom keyword .outside word ('(' :: (x ++ ')' :: tail)) =
      (if word.reverse.map Char.toUpper = keyword then
        [Tally.start.run .outside (x ++ ')' :: tail)] else []) ++
        (callsFrom keyword .outside [] x ++ callsFrom keyword .outside [] tail) := by
  have hopen : wordStep .outside word '(' = [] := if_neg (by decide)
  have hclose : callsFrom keyword .outside (wordAfter .outside [] x) ([')'] ++ tail) =
      callsFrom keyword .outside [] tail := callsFrom_gap (by simp) (by decide) rfl tail
  rw [List.singleton_append] at hclose
  rw [callsFrom_cons, hopen, QuoteState.step_outside rfl, hx.callsFrom_append, hclose]
  simp

end

section

variable (k : Keyword)

theorem callsFrom_blanks {blanks : List Char} (h : ∀ c ∈ blanks, Text.isBlank c = true)
    (rest : List Char) : callsFrom k.spelling .outside [] (blanks ++ rest) = calls k rest := by
  cases blanks with
  | nil => rfl
  | cons b blanks =>
      refine callsFrom_gap (by simp) (fun c hc => ?_) ?_ rest
      · refine ⟨isQuote_eq_false_of_isBlank (h c hc), ?_⟩
        rintro rfl
        exact absurd (h '(' hc) (by decide)
      · have hlast := h _ (List.getLast_mem (List.cons_ne_nil b blanks))
        rw [List.getLast?_eq_some_getLast (List.cons_ne_nil b blanks)]
        exact joinsName_of_isBlank hlast

theorem calls_trim {x : List Char} (hx : Balanced x) : calls k (Text.trim x) = calls k x := by
  obtain ⟨l, r, hsplit, hl, hr⟩ := exists_trim x
  have hleft : '(' ∉ r := fun hmem => absurd (hr '(' hmem) (by decide)
  have hrest : calls k (Text.trim x ++ r) = calls k (Text.trim x) := by
    rw [calls, hx.trim.callsFrom_append, callsFrom_eq_nil hleft, List.append_nil]
    rfl
  calc calls k (Text.trim x) = calls k (Text.trim x ++ r) := hrest.symm
    _ = calls k (l ++ (Text.trim x ++ r)) := (callsFrom_blanks k hl _).symm
    _ = calls k x := by rw [← hsplit]

theorem calls_append_gap {x gap : List Char} (hx : Balanced x) (hne : gap ≠ [])
    (h : ∀ c ∈ gap, isQuote c = false ∧ c ≠ '(')
    (hlast : gap.getLast?.any joinsName = false) (rest : List Char) :
    calls k (x ++ (gap ++ rest)) = calls k x ++ calls k rest := by
  rw [calls, hx.callsFrom_append, callsFrom_gap hne h hlast]
  rfl

theorem calls_intercalate {separator : List Char} (hne : separator ≠ [])
    (h : ∀ c ∈ separator, isQuote c = false ∧ c ≠ '(')
    (hlast : separator.getLast?.any joinsName = false) {xs : List (List Char)}
    (hxs : ∀ x ∈ xs, Balanced x) :
    calls k (separator.intercalate xs) = xs.flatMap (calls k) := by
  induction xs with
  | nil => rfl
  | cons x xs ih =>
      obtain ⟨hx, hxs⟩ := List.forall_mem_cons.1 hxs
      cases xs with
      | nil => simp
      | cons y ys =>
          rw [List.intercalate_cons_cons, List.append_assoc, calls_append_gap k hx hne h hlast,
            ih hxs]
          rfl

/-- The calls of a call's arguments are those between its parentheses. -/
theorem argumentsOf_balanced {x : List Char} (hx : Balanced x) :
    (∀ a ∈ argumentsOf x, Balanced a) ∧ (argumentsOf x).flatMap (calls k) = calls k x := by
  have hcomma : calls k ([','].intercalate (pieces 0 .outside x)) =
      (pieces 0 .outside x).flatMap (calls k) :=
    calls_intercalate k (by simp) (by decide) rfl hx.pieces
  have hcalls : (pieces 0 .outside x).flatMap (calls k) = calls k x := by
    rw [← hcomma, intercalate_pieces]
  refine ⟨hx.argumentsOf, ?_⟩
  unfold argumentsOf
  dsimp only
  split
  · rename_i hlast
    have hsplit : (pieces 0 .outside x).dropLast ++ [[]] = pieces 0 .outside x :=
      List.dropLast_append_getLast? [] hlast
    rw [← hcalls, ← hsplit]
    simp [calls, callsFrom]
  · exact hcalls

end

/-! ### One round -/

theorem Keyword.form_eq_none_iff (k : Keyword) (arguments : List (List Char)) :
    k.form arguments = none ↔ ¬k.Admits arguments.length := by
  cases k with
  | choice =>
      rw [form, Admits, List.length_eq_three]
      unfold ifForm
      split
      · simp
      · rename_i hother
        simp only [true_iff, not_exists]
        rintro condition yes no rfl
        exact hother condition yes no rfl
  | conjunction => simp [form, chainForm, Admits]
  | disjunction => simp [form, chainForm, Admits]

section

variable {arguments : List (List Char)} {text : List Char}
  (harguments : ∀ a ∈ arguments, Balanced a) (j : Keyword)
include harguments

theorem chainForm_balanced {separator : List Char} (hne : separator ≠ [])
    (hplain : ∀ c ∈ separator, isQuote c = false ∧ c ≠ '(' ∧ c ≠ ')')
    (hlast : separator.getLast?.any joinsName = false)
    (h : chainForm separator arguments = some text) :
    Balanced text ∧ calls j text = arguments.flatMap (calls j) := by
  unfold chainForm at h
  split at h
  · cases h
  · cases h
    exact ⟨.intercalate (.plain hplain) harguments,
      calls_intercalate j hne (fun c hc => ⟨(hplain c hc).1, (hplain c hc).2.1⟩) hlast harguments⟩

theorem ifForm_balanced (h : ifForm arguments = some text) :
    Balanced text ∧ (calls j text).Perm (arguments.flatMap (calls j)) := by
  unfold ifForm at h
  split at h
  · rename_i condition yes no
    cases h
    have hcondition := harguments condition (by simp)
    have hyes := harguments yes (by simp)
    have hno := harguments no (by simp)
    have hif : Balanced " if ".toList := .plain (by decide)
    have helse : Balanced " else ".toList := .plain (by decide)
    refine ⟨(((hyes.append hif).append hcondition).append helse).append hno, ?_⟩
    have hcalls : calls j (yes ++ " if ".toList ++ condition ++ " else ".toList ++ no) =
        calls j yes ++ (calls j condition ++ calls j no) := by
      simp only [List.append_assoc]
      rw [calls_append_gap j hyes (by decide) (by decide) (by decide),
        calls_append_gap j hcondition (by decide) (by decide) (by decide)]
    rw [hcalls]
    simpa using List.perm_append_comm_assoc _ _ _
  · cases h

/-- A statement is balanced if its arguments are, and its calls are those of the arguments. Only a
choice puts them in another order. -/
theorem Keyword.form_balanced {k : Keyword} (h : k.form arguments = some text) :
    Balanced text ∧ (calls j text).Perm (arguments.flatMap (calls j)) ∧
      (k ≠ .choice → calls j text = arguments.flatMap (calls j)) := by
  cases k with
  | choice =>
      obtain ⟨hbalanced, hperm⟩ := ifForm_balanced harguments j h
      exact ⟨hbalanced, hperm, absurd rfl⟩
  | conjunction =>
      obtain ⟨hbalanced, hcalls⟩ :=
        chainForm_balanced harguments j (by decide) (by decide) (by decide) h
      exact ⟨hbalanced, .of_eq hcalls, fun _ => hcalls⟩
  | disjunction =>
      obtain ⟨hbalanced, hcalls⟩ :=
        chainForm_balanced harguments j (by decide) (by decide) (by decide) h
      exact ⟨hbalanced, .of_eq hcalls, fun _ => hcalls⟩

end

/-- What a call becomes is balanced and has the calls that stood between its parentheses. -/
theorem Keyword.form_calls {k : Keyword} {inner text : List Char} (hinner : Balanced inner)
    (h : k.form ((argumentsOf inner).map Text.trim) = some text) (j : Keyword) :
    Balanced text ∧ (calls j text).Perm (calls j inner) ∧
      (k ≠ .choice → calls j text = calls j inner) := by
  obtain ⟨harguments, hcalls⟩ := argumentsOf_balanced j hinner
  have htrimmed : ∀ a ∈ (argumentsOf inner).map Text.trim, Balanced a := by
    simpa using fun a ha => (harguments a ha).trim
  have hsame : ((argumentsOf inner).map Text.trim).flatMap (calls j) = calls j inner := by
    rw [List.flatMap_map, ← hcalls]
    exact List.flatMap_congr fun a ha => calls_trim j (harguments a ha)
  have hform := form_balanced htrimmed j h
  rwa [hsame] at hform

/-- In one round the leftmost call becomes a statement. -/
inductive Round (k : Keyword) : List Char → List Char → Prop where
  | intro {head name inner text : List Char} (tail : List Char) (hhead : Closed head)
      (hword : wordAfter .outside [] head = []) (hclear : calls k head = [])
      (hname : name.map Char.toUpper = k.spelling) (hinner : Balanced inner)
      (htext : k.form ((argumentsOf inner).map Text.trim) = some text) :
      Round k (head ++ (name ++ '(' :: (inner ++ ')' :: tail)))
        (head ++ '(' :: (text ++ ')' :: tail))

section

variable (k : Keyword) {head : List Char} (hhead : Closed head)
  (hword : wordAfter .outside [] head = []) {x : List Char} (hx : Balanced x) (tail : List Char)
include hhead hword hx

/-- The calls around a group, in it and behind it. -/
theorem calls_around_group : calls k (head ++ '(' :: (x ++ ')' :: tail)) =
    ((calls k head).map fun t => t.fill.run .outside tail) ++ (calls k x ++ calls k tail) := by
  have hother : ¬([] : List Char).reverse.map Char.toUpper = k.spelling :=
    fun h => k.spelling_ne_nil h.symm
  rw [calls, callsFrom_append, hhead, hword, callsFrom_group hx, if_neg hother, List.nil_append]
  simp only [Tally.run_group _ hx]
  rfl

theorem calls_around_call {name : List Char} {j : Keyword}
    (hname : name.map Char.toUpper = j.spelling) :
    calls k (head ++ (name ++ '(' :: (x ++ ')' :: tail))) =
      ((calls k head).map fun t => t.fill.run .outside tail) ++
        ((if j = k then [Tally.start.run .outside (x ++ ')' :: tail)] else []) ++
          (calls k x ++ calls k tail)) := by
  have hchars := isNameChar_of_spelling hname
  have hfill : ∀ t : Tally, t.run .outside (name ++ '(' :: (x ++ ')' :: tail)) =
      t.fill.run .outside tail := by
    intro t
    have hne : name ≠ [] := by
      rintro rfl
      exact j.spelling_ne_nil hname.symm
    have hplain : ∀ c ∈ name, c ∉ ['(', ')', ','] := by
      intro c hc hmem
      rcases (by simpa using hmem : c = '(' ∨ c = ')' ∨ c = ',') with rfl | rfl | rfl
      all_goals exact absurd (hchars _ hc) (by decide)
    have hunquoted : Unquoted name := fun c hc => isQuote_of_isNameChar (hchars c hc)
    rw [Tally.run_append, t.run_plain hne hplain, hunquoted.run, Tally.run_group _ hx,
      Tally.fill_fill]
  have hkeyword : name.map Char.toUpper = k.spelling ↔ j = k := by
    rw [hname]
    cases j <;> cases k <;> decide
  rw [calls, callsFrom_append, hhead, hword, callsFrom_name hchars, callsFrom_group hx]
  simp only [hfill, List.append_nil, List.reverse_reverse, hkeyword]
  rfl

end

namespace Round

variable {k : Keyword} {x y : List Char} (h : Round k x y)
include h

/-- A round takes the first call of the keyword away and leaves all others. -/
theorem exists_calls : ∃ t others, calls k x = t :: others ∧ others.Perm (calls k y) := by
  obtain ⟨tail, hhead, hword, hclear, hname, hinner, htext⟩ := h
  obtain ⟨hbalanced, hperm, -⟩ := Keyword.form_calls hinner htext k
  rw [calls_around_call k hhead hword hinner tail hname, if_pos rfl,
    calls_around_group k hhead hword hbalanced, hclear]
  exact ⟨_, _, rfl, hperm.symm.append_right _⟩

/-- A round makes no call. -/
theorem calls_subperm (j : Keyword) : (calls j y).Subperm (calls j x) := by
  by_cases hj : k = j
  · subst hj
    obtain ⟨t, others, hcalls, hperm⟩ := h.exists_calls
    rw [hcalls]
    exact hperm.symm.subperm.trans (List.sublist_cons_self t others).subperm
  · obtain ⟨tail, hhead, hword, -, hname, hinner, htext⟩ := h
    obtain ⟨hbalanced, hperm, -⟩ := Keyword.form_calls hinner htext j
    rw [calls_around_group j hhead hword hbalanced,
      calls_around_call j hhead hword hinner tail hname, if_neg hj, List.nil_append]
    exact ((hperm.append_right _).append_left _).subperm

/-- The calls of the other keywords stay as they are, where the order of the arguments stays. -/
theorem calls_eq (hk : k ≠ .choice) {j : Keyword} (hj : j ≠ k) : calls j y = calls j x := by
  obtain ⟨tail, hhead, hword, -, hname, hinner, htext⟩ := h
  obtain ⟨hbalanced, -, hsame⟩ := Keyword.form_calls hinner htext j
  rw [calls_around_group j hhead hword hbalanced, calls_around_call j hhead hword hinner tail hname,
    if_neg hj.symm, hsame hk, List.nil_append]

end Round

/-! ### All rounds -/

/-- The first call of the keyword is left alone: it is not closed, or its number of arguments is not
admitted. -/
def Settled (k : Keyword) (cs : List Char) : Prop :=
  ∀ n, (calls k cs).head?.bind Tally.size? = some n → ¬k.Admits n

section

variable (k : Keyword)

theorem splitAtCall_calls (cs : List Char) :
    (splitAtCall k.spelling .outside none cs = none ∧ calls k cs = []) ∨
    ∃ head name tail, splitAtCall k.spelling .outside none cs = some (head, tail) ∧
      cs = head ++ (name ++ '(' :: tail) ∧ Closed head ∧ wordAfter .outside [] head = [] ∧
      calls k head = [] ∧ name.map Char.toUpper = k.spelling ∧
      (calls k cs).head? = some (Tally.start.run .outside tail) := by
  rcases splitAtCall_first (.start k cs) with hnone | ⟨head, tail, hsome, hword, hclear⟩
  · exact .inl hnone
  · obtain ⟨name, rfl, hhead, hname⟩ := splitAtCall_eq_some hsome
    refine .inr ⟨head, name, tail, hsome, rfl, hhead, hword, hclear, hname, ?_⟩
    have hcall : punctuation .outside '(' = .left ∧
        (name.reverse ++ []).reverse.map Char.toUpper = k.spelling := ⟨rfl, by simpa using hname⟩
    rw [calls, callsFrom_append, hclear, hhead, hword,
      callsFrom_name (isNameChar_of_spelling hname), callsFrom_cons, if_pos hcall]
    rfl

/-- The leftmost call has as many arguments as were counted for the first call. -/
theorem length_leftmostCall? (cs : List Char) :
    (leftmostCall? k.spelling cs).map (fun found => found.2.1.length) =
      (calls k cs).head?.bind Tally.size? := by
  rcases splitAtCall_calls k cs with
    ⟨hnone, hcalls⟩ | ⟨head, name, tail, hsome, -, -, -, -, -, hfirst⟩
  · rw [leftmostCall?, hnone, hcalls]
    rfl
  · rw [hfirst, Option.bind_some, Tally.size?_run_start, leftmostCall?, hsome]
    cases hclose : splitClose 1 .outside tail <;> simp [hclose]

end

/-- One round of the loop, if there is one: the leftmost call is closed, and its arguments are
taken. -/
def Keyword.rewrite? (k : Keyword) (cs : List Char) : Option (List Char) := do
  let (head, arguments, tail) ← leftmostCall? k.spelling cs
  let text ← k.form (arguments.map Text.trim)
  return head ++ '(' :: (text ++ ')' :: tail)

theorem writeCalls_succ (k : Keyword) (fuel : Nat) (cs : List Char) :
    writeCalls k.spelling k.form (fuel + 1) cs =
      ((k.rewrite? cs).map (writeCalls k.spelling k.form fuel)).getD cs := by
  rw [writeCalls, Keyword.rewrite?]
  cases hcall : leftmostCall? k.spelling cs with
  | none => rfl
  | some found =>
      obtain ⟨head, arguments, tail⟩ := found
      cases htext : k.form (arguments.map Text.trim) <;> simp [htext]

section

variable {k : Keyword} {cs : List Char}

theorem rewrite?_eq_none_iff : k.rewrite? cs = none ↔ Settled k cs := by
  rw [Settled, ← length_leftmostCall?, Keyword.rewrite?]
  cases leftmostCall? k.spelling cs with
  | none => simp
  | some found =>
      have hform := k.form_eq_none_iff (found.2.1.map Text.trim)
      rw [List.length_map] at hform
      simp [Option.bind_eq_none_iff, ← hform, ← Option.eq_none_iff_forall_ne_some]

theorem round_of_rewrite? {next : List Char} (h : k.rewrite? cs = some next) :
    Round k cs next := by
  simp only [Keyword.rewrite?, leftmostCall?, Option.bind_eq_bind, Option.bind_eq_some_iff] at h
  obtain ⟨⟨head, arguments, tail⟩, ⟨⟨front, back⟩, hfound, ⟨inner, rest⟩, hclose, hcall⟩, text,
    htext, hnext⟩ := h
  cases hcall
  cases hnext
  rcases splitAtCall_calls k cs with
    ⟨hnone, -⟩ | ⟨_, name, _, hsome, rfl, hhead, hword, hclear, hname, -⟩
  · rw [hnone] at hfound
    cases hfound
  · obtain ⟨rfl, rfl⟩ := Prod.mk.inj (Option.some.inj (hsome.symm.trans hfound))
    obtain ⟨rfl, -⟩ := splitClose_eq_some hclose
    exact .intro _ hhead hword hclear hname (balanced_of_splitClose hclose) htext

theorem writeCalls_of_settled (h : Settled k cs) (fuel : Nat) :
    writeCalls k.spelling k.form fuel cs = cs := by
  cases fuel with
  | zero => rfl
  | succ fuel => rw [writeCalls_succ, rewrite?_eq_none_iff.2 h, Option.map_none, Option.getD_none]

end

/-- As many rounds as there are calls settle a text. -/
theorem writeCalls_rounds (k : Keyword) (fuel : Nat) (cs : List Char) :
    Relation.ReflTransGen (Round k) cs (writeCalls k.spelling k.form fuel cs) ∧
      ((calls k cs).length ≤ fuel → Settled k (writeCalls k.spelling k.form fuel cs)) := by
  induction fuel generalizing cs with
  | zero =>
      refine ⟨.refl, fun hlength n hsize => ?_⟩
      rw [writeCalls, List.length_eq_zero_iff.1 (Nat.le_zero.1 hlength)] at hsize
      cases hsize
  | succ fuel ih =>
      rw [writeCalls_succ]
      cases hnext : k.rewrite? cs with
      | none => exact ⟨.refl, fun _ => rewrite?_eq_none_iff.1 hnext⟩
      | some next =>
          have hround := round_of_rewrite? hnext
          obtain ⟨hrounds, hrest⟩ := ih next
          obtain ⟨t, others, hcalls, hperm⟩ := hround.exists_calls
          refine ⟨.head hround hrounds, fun hlength => hrest ?_⟩
          rw [hcalls, List.length_cons, hperm.length_eq] at hlength
          exact Nat.le_of_succ_le_succ hlength

/-! ### The passes -/

/-- All calls of one keyword. -/
def Keyword.write (k : Keyword) (cs : List Char) : List Char :=
  writeCalls k.spelling k.form cs.length cs

theorem Keyword.settled_write (k : Keyword) (cs : List Char) : Settled k (k.write cs) :=
  (writeCalls_rounds k cs.length cs).2 (length_callsFrom_le _ _ _ _)

theorem Keyword.write_of_settled {k : Keyword} {cs : List Char} (h : Settled k cs) :
    k.write cs = cs :=
  writeCalls_of_settled h cs.length

theorem Keyword.rounds_write (k : Keyword) (cs : List Char) :
    Relation.ReflTransGen (Round k) cs (k.write cs) :=
  (writeCalls_rounds k cs.length cs).1

/-- No pass makes a call. -/
theorem Keyword.calls_write_subperm (j k : Keyword) (cs : List Char) :
    (calls j (k.write cs)).Subperm (calls j cs) := by
  have hrounds := k.rounds_write cs
  generalize k.write cs = result at hrounds ⊢
  induction hrounds with
  | refl => exact .refl _
  | tail _ hround ih => exact (hround.calls_subperm j).trans ih

/-- The passes for chains leave the calls of the other keywords as they are. -/
theorem Keyword.calls_write {j k : Keyword} (hk : k ≠ .choice) (hj : j ≠ k) (cs : List Char) :
    calls j (k.write cs) = calls j cs := by
  have hrounds := k.rounds_write cs
  generalize k.write cs = result at hrounds ⊢
  induction hrounds with
  | refl => rfl
  | tail _ hround ih => rw [hround.calls_eq hk hj, ih]

end SheetBoard.Formula
