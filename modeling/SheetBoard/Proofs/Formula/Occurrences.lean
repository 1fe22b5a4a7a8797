import Mathlib.Logic.Function.Iterate
import SheetBoard.Proofs.Formula.Rounds

/-! The loop that writes calls as statements ends. Every round takes the leftmost place where a call
of the keyword starts and makes no new one, so there are at most as many rounds as places. -/

namespace SheetBoard.Formula

/-! ### Places -/

/-- The places from which on the text reads like a call of the keyword, outside literals. -/
def placesFrom (keyword : List Char) (st : QuoteState) (before : Option Char) (cs : List Char) :
    List Nat :=
  (List.range cs.length).filter fun i => st.run (cs.take i) = .outside ∧
    startsCall keyword ((cs.take i).getLast?.or before) (cs.drop i)

/-- The places where a call of the keyword starts: outside literals, as a whole word. -/
def places (k : Keyword) (cs : List Char) : List Nat := placesFrom k.spelling .outside none cs

theorem placesFrom_cons (keyword : List Char) (st : QuoteState) (before : Option Char) (c : Char)
    (rest : List Char) : placesFrom keyword st before (c :: rest) =
      (if st = .outside ∧ startsCall keyword before (c :: rest) then [0] else []) ++
        (placesFrom keyword (st.step c) (some c) rest).map (· + 1) := by
  have hlast : ∀ x : List Char, (c :: x).getLast?.or before = x.getLast?.or (some c) := by
    intro x
    cases hx : x.getLast? <;> simp [List.getLast?_cons, hx]
  rw [placesFrom, List.length_cons, List.range_succ_eq_map, List.filter_cons, List.filter_map]
  simp only [Function.comp_def, List.take_zero, QuoteState.run_nil, List.getLast?_nil,
    Option.none_or, List.drop_zero, Nat.succ_eq_add_one, List.take_succ_cons, QuoteState.run_cons,
    hlast, List.drop_succ_cons, decide_eq_true_eq]
  split <;> rfl

/-- The search for a call comes to the first place. -/
theorem head?_placesFrom (keyword : List Char) (st : QuoteState) (before : Option Char)
    (cs : List Char) : (placesFrom keyword st before cs).head? =
      (splitAtCall keyword st before cs).map fun found => found.1.length := by
  induction cs generalizing st before with
  | nil => rfl
  | cons c cs ih =>
      rw [placesFrom_cons, splitAtCall]
      split
      · rfl
      · rw [List.nil_append, List.head?_map, ih]
        cases splitAtCall keyword (st.step c) (some c) cs <;> rfl

/-! ### Places and calls -/

/-- The word that is open at a place becomes the name of a call. -/
def Pending (k : Keyword) (word cs : List Char) : Prop :=
  word ≠ [] ∧ startsCall k.spelling none (word.reverse ++ cs) = true

instance (k : Keyword) (word cs : List Char) : Decidable (Pending k word cs) :=
  inferInstanceAs (Decidable (_ ∧ _))

theorem not_pending_nil (k : Keyword) (cs : List Char) : ¬Pending k [] cs := fun h => h.1 rfl

section

variable (k : Keyword) {word : List Char} (hword : ∀ d ∈ word, joinsName d = true)
include hword

/-- A word ends where the next character belongs to no name. -/
theorem pending_iff {rest : List Char} (hrest : rest.head?.any joinsName = false) :
    Pending k word rest ↔
      rest.head? = some '(' ∧ word.reverse.map Char.toUpper = k.spelling := by
  have hopen : '(' ∉ word.reverse := by
    intro hmem
    have hjoins := hword '(' (List.mem_reverse.1 hmem)
    cases hjoins
  have hname : rest.head?.any isNameChar = false :=
    any_head?_eq_false hrest fun _ => joinsName_of_isNameChar
  have hne : word.reverse.map Char.toUpper = k.spelling → word ≠ [] := by
    rintro hspelling rfl
    exact k.spelling_ne_nil hspelling.symm
  rw [Pending, startsCall_name k hopen hname]
  simp only [Option.any_none, Bool.not_false, Bool.true_and, Bool.and_eq_true, beq_iff_eq]
  tauto

end

/-- Over one character: a place opens a word, and a call closes one. -/
theorem pending_step {k : Keyword} {st : QuoteState} {before : Option Char} {word : List Char}
    (h : OpenWord st before word) (c : Char) (cs : List Char) :
    ((if punctuation st c = .left ∧ word.reverse.map Char.toUpper = k.spelling then 1 else 0) +
      if Pending k (wordStep st word c) cs then 1 else 0) =
    (if st = .outside ∧ startsCall k.spelling before (c :: cs) = true then 1 else 0) +
      if Pending k word (c :: cs) then 1 else 0 := by
  by_cases hst : st = .outside
  case neg =>
    obtain rfl := h.inside hst
    simp [wordStep, not_pending_nil, punctuation, hst]
  subst hst
  cases hc : joinsName c with
  | true =>
      have hleft : punctuation .outside c ≠ .left := by
        intro hleft
        obtain ⟨-, rfl⟩ := punctuation_eq_left hleft
        cases hc
      have hstep : wordStep .outside word c = c :: word := if_pos ⟨rfl, hc⟩
      cases word with
      | nil =>
          have hbefore : before.any joinsName = false := by simpa using h.isOpen rfl
          simp [hstep, hleft, Pending, startsCall_of_any k hbefore]
      | cons d word =>
          have hbefore : before.any joinsName = true := by simpa using h.isOpen rfl
          have hstarts : startsCall k.spelling before (c :: cs) = false := by
            simp [startsCall, hbefore]
          simp [hstep, hleft, hstarts, Pending]
  | false =>
      have hstep : wordStep .outside word c = [] := if_neg (by simp [hc])
      have hstarts : startsCall k.spelling before (c :: cs) = false := by
        refine startsCall_plain k ?_ cs
        cases hstart : isNameStart c with
        | false => rfl
        | true =>
            rw [joinsName_of_isNameChar (isNameChar_of_isNameStart hstart)] at hc
            cases hc
      have hleft : punctuation .outside c = .left ↔ c = '(' :=
        ⟨fun hleft => (punctuation_eq_left hleft).2, fun hc => by rw [hc]; rfl⟩
      have hpending : Pending k word (c :: cs) ↔
          some c = some '(' ∧ word.reverse.map Char.toUpper = k.spelling :=
        pending_iff k h.chars hc
      simp [hstep, hstarts, not_pending_nil, hleft, hpending]

/-- Every call has its place. A place is where the name of a call starts and a call is counted at
its parenthesis, so a name that is open in between counts too. -/
theorem length_callsFrom {k : Keyword} {st : QuoteState} {before : Option Char}
    {word : List Char} (h : OpenWord st before word) (cs : List Char) :
    (callsFrom k.spelling st word cs).length =
      (placesFrom k.spelling st before cs).length + if Pending k word cs then 1 else 0 := by
  induction cs generalizing st before word with
  | nil =>
      have hpending : ¬Pending k word [] := by
        rw [pending_iff k h.chars rfl]
        simp
      simp [callsFrom, placesFrom, hpending]
  | cons c cs ih =>
      have hstep := pending_step (k := k) h c cs
      have hrest := ih (h.step c)
      rw [callsFrom_cons, placesFrom_cons, List.length_append, List.length_append, List.length_map,
        hrest, apply_ite List.length, apply_ite List.length]
      simp only [List.length_singleton, List.length_nil]
      omega

theorem length_calls (k : Keyword) (cs : List Char) :
    (calls k cs).length = (places k cs).length := by
  have hlength := length_callsFrom (k := k) .start cs
  rwa [if_neg (not_pending_nil k cs)] at hlength

/-! ### The loop -/

/-- The pass that writes the calls of a keyword. -/
def Keyword.pass : Keyword → List Char → List Char
  | .choice => writeChoices
  | .conjunction => writeConjunctions
  | .disjunction => writeDisjunctions

theorem Keyword.pass_eq_write (k : Keyword) (cs : List Char) : k.pass cs = k.write cs := by
  cases k <;> rfl

/-- The text after some rounds, if there were as many. -/
def Keyword.after (k : Keyword) (rounds : Nat) (cs : List Char) : Option (List Char) :=
  (fun text => text.bind k.rewrite?)^[rounds] (some cs)

theorem Keyword.after_succ {k : Keyword} {cs next : List Char} (h : k.rewrite? cs = some next)
    (rounds : Nat) : k.after (rounds + 1) cs = k.after rounds next := by
  rw [after, Function.iterate_succ_apply, Option.bind_some, h]
  rfl

theorem length_places_rewrite? {k : Keyword} {cs next : List Char}
    (h : k.rewrite? cs = some next) : (places k cs).length = (places k next).length + 1 := by
  obtain ⟨t, others, hcalls, hperm⟩ := (round_of_rewrite? h).exists_calls
  rw [← length_calls, ← length_calls, hcalls, List.length_cons, hperm.length_eq]

/-- The loop needs no more rounds than there are places, and more fuel changes nothing. -/
theorem exists_after_eq (k : Keyword) (fuel : Nat) (cs : List Char)
    (hfuel : (places k cs).length ≤ fuel) :
    ∃ rounds ≤ (places k cs).length,
      k.after rounds cs = some (writeCalls k.spelling k.form fuel cs) := by
  induction fuel generalizing cs with
  | zero => exact ⟨0, Nat.zero_le _, rfl⟩
  | succ fuel ih =>
      rw [writeCalls_succ]
      cases hnext : k.rewrite? cs with
      | none => exact ⟨0, Nat.zero_le _, rfl⟩
      | some next =>
          have hlength := length_places_rewrite? hnext
          obtain ⟨rounds, hrounds, hafter⟩ := ih next (by omega)
          exact ⟨rounds + 1, by omega, (Keyword.after_succ hnext rounds).trans hafter⟩

/-- What stops the loop. -/
theorem exists_of_settled {k : Keyword} {cs : List Char} (h : Settled k cs) :
    places k cs = [] ∨ ∃ head name tail, cs = head ++ (name ++ '(' :: tail) ∧
      (places k cs).head? = some head.length ∧ name.map Char.toUpper = k.spelling ∧
      (splitClose 1 .outside tail = none ∨ ∃ inner rest,
        splitClose 1 .outside tail = some (inner, rest) ∧
          ¬k.Admits (argumentsOf inner).length) := by
  have hhead := head?_placesFrom k.spelling .outside none cs
  rcases splitAtCall_calls k cs with
    ⟨hnone, -⟩ | ⟨head, name, tail, hsome, hcs, -, -, -, hname, hfirst⟩
  · rw [hnone] at hhead
    exact .inl (List.head?_eq_none_iff.1 hhead)
  · rw [hsome] at hhead
    refine .inr ⟨head, name, tail, hcs, hhead, hname, ?_⟩
    cases hclose : splitClose 1 .outside tail with
    | none => exact .inl rfl
    | some found =>
        refine .inr ⟨found.1, found.2, rfl, h _ ?_⟩
        rw [hfirst, Option.bind_some, Tally.size?_run_start, hclose]
        rfl

/-- A round takes away the first call of its keyword and leaves all others, so there is one place
less where such a call starts. The loop therefore ends after at most as many rounds as there are
places. It ends in a text without such a place, or where the call at the first one is not closed or
has a number of arguments that is not admitted. -/
theorem pass_bounded (k : Keyword) (cs : List Char) :
    (∀ next, k.rewrite? cs = some next →
      (places k cs).length = (places k next).length + 1 ∧
        (calls k cs).tail.Perm (calls k next)) ∧
    (∃ rounds ≤ (places k cs).length, k.after rounds cs = some (k.pass cs)) ∧
    k.rewrite? (k.pass cs) = none ∧
    (places k (k.pass cs) = [] ∨ ∃ head name tail, k.pass cs = head ++ (name ++ '(' :: tail) ∧
      (places k (k.pass cs)).head? = some head.length ∧ name.map Char.toUpper = k.spelling ∧
      (splitClose 1 .outside tail = none ∨ ∃ inner rest,
        splitClose 1 .outside tail = some (inner, rest) ∧
          ¬k.Admits (argumentsOf inner).length)) := by
  have hsettled : Settled k (k.pass cs) := by
    rw [k.pass_eq_write]
    exact k.settled_write cs
  refine ⟨fun next hnext => ⟨length_places_rewrite? hnext, ?_⟩, ?_,
    rewrite?_eq_none_iff.2 hsettled, exists_of_settled hsettled⟩
  · obtain ⟨t, others, hcalls, hperm⟩ := (round_of_rewrite? hnext).exists_calls
    rwa [hcalls]
  · rw [k.pass_eq_write]
    refine exists_after_eq k cs.length cs ?_
    rw [← length_calls]
    exact length_callsFrom_le _ _ _ _

theorem pass_bounded_nested :
    let cs := "x & if(a,IF(b,\"IF(\",2),3)".toList
    let next := "x & (IF(b,\"IF(\",2) if a else 3)".toList
    Keyword.choice.rewrite? cs = some next ∧
      (places .choice cs).length = (places .choice next).length + 1 := by
  intro cs next
  have hnext : Keyword.choice.rewrite? cs = some next := by decide
  exact ⟨hnext, ((pass_bounded .choice cs).1 next hnext).1⟩

end SheetBoard.Formula
