import SheetBoard.Script.Parser

/-! The grammar of scripts as derivation rules, one or two for each form. Reading succeeds exactly
where a derivation exists, and both give the same expression and leave the same tokens. -/

namespace SheetBoard.Script

/-! ### Tokens one by one -/

theorem tokens_eq_nil {cs : List Char} (h : Text.trimStart cs = []) : tokens cs = [] := by
  rw [tokens]
  split
  · rfl
  · simp_all

theorem tokens_eq_cons {cs rest : List Char} {c : Char} (h : Text.trimStart cs = c :: rest) :
    tokens cs = (lex c rest).1 :: tokens (lex c rest).2 := by
  rw [tokens]
  split
  · simp_all
  · rename_i d tail htrim
    obtain ⟨rfl, rfl⟩ := List.cons.inj (h.symm.trans htrim)
    rfl

/-! ### The rules -/

/-- What was read: one expression, or the items of a list. -/
inductive Found where
  | expr (expr : Expr)
  | items (items : List Expr)

/-- `Derivation goal ts found rest`: the grammar allows to read `found` from the front of `ts`, and
`rest` is left. The rules do not invoke the plans. -/
inductive Derivation : Goal → List Token → Found → List Token → Prop where
  | plain {ts rest e} : Derivation (.level .or) ts (.expr e) rest →
      rest.head? ≠ some (.name "if") → rest.head? ≠ some .question →
      Derivation .conditional ts (.expr e) rest
  | chosen {ts middle tail rest condition yes no} :
      Derivation (.level .or) ts (.expr yes) (.name "if" :: middle) →
      Derivation (.level .or) middle (.expr condition) (.name "else" :: tail) →
      Derivation .conditional tail (.expr no) rest →
      Derivation .conditional ts (.expr (.conditional condition yes no)) rest
  | ternary {ts middle tail rest condition yes no} :
      Derivation (.level .or) ts (.expr condition) (.question :: middle) →
      Derivation .conditional middle (.expr yes) (.colon :: tail) →
      Derivation .conditional tail (.expr no) rest →
      Derivation .conditional ts (.expr (.conditional condition yes no)) rest
  | level {level ts middle rest left e} : Derivation level.operand ts (.expr left) middle →
      Derivation (.operators level left) middle (.expr e) rest →
      Derivation (.level level) ts (.expr e) rest
  | stop {level left rest} : rest.head?.bind level.operator? = none →
      Derivation (.operators level left) rest (.expr left) rest
  | operator {level t op left right ts middle rest e} : level.operator? t = some op →
      Derivation level.operand ts (.expr right) middle →
      Derivation (.operators level (.binary op left right)) middle (.expr e) rest →
      Derivation (.operators level left) (t :: ts) (.expr e) rest
  | not {ts rest e} : Derivation .negation ts (.expr e) rest →
      Derivation .negation (.name "not" :: ts) (.expr (.unary .not e)) rest
  | comparison {ts rest e} : ts.head? ≠ some (.name "not") →
      Derivation (.level .comparison) ts (.expr e) rest → Derivation .negation ts (.expr e) rest
  | sign {t op ts rest e} : sign? t = some op → Derivation .signed ts (.expr e) rest →
      Derivation .signed (t :: ts) (.expr (.unary op e)) rest
  | unsigned {ts rest e} : ts.head?.bind sign? = none → Derivation .value ts (.expr e) rest →
      Derivation .signed ts (.expr e) rest
  | number {x rest} : Derivation .value (.number x :: rest) (.expr (.number x)) rest
  | text {s rest} : Derivation .value (.text s :: rest) (.expr (.text s)) rest
  | paren {ts rest e} : Derivation .conditional ts (.expr e) (.rightParen :: rest) →
      Derivation .value (.leftParen :: ts) (.expr e) rest
  | array {ts rest es} : Derivation (.items .rightBracket) ts (.items es) rest →
      Derivation .value (.leftBracket :: ts) (.expr (.array es)) rest
  | call {n ts rest es} : Derivation (.items .rightParen) ts (.items es) rest →
      Derivation .value (.name n :: .leftParen :: ts) (.expr (.call n es)) rest
  | word {n rest} : rest.head? ≠ some .leftParen →
      Derivation .value (.name n :: rest) (.expr (wordValue n)) rest
  | noItems {close rest} : Derivation (.items close) (close :: rest) (.items []) rest
  | items {close ts middle rest e es} : ts.head? ≠ some close →
      Derivation .conditional ts (.expr e) middle →
      Derivation (.more close) middle (.items es) rest →
      Derivation (.items close) ts (.items (e :: es)) rest
  | close {close rest} : close ≠ .comma → Derivation (.more close) (close :: rest) (.items []) rest
  | next {close ts middle rest e es} : Derivation .conditional ts (.expr e) middle →
      Derivation (.more close) middle (.items es) rest →
      Derivation (.more close) (.comma :: ts) (.items (e :: es)) rest

/-! ### Carrying plans out -/

namespace Plan

variable {goal callee : Goal} {ts us : List Token} {next : callee.Result → Left us → Plan goal ts}
  {hlt : callee.size us < goal.size ts}

/-- Carries a plan out, each call being answered by reading. -/
def execute (plan : Plan goal ts) : goal.Outcome ts := plan.run fun callee us _ => callee.read us

@[simp] theorem execute_fail (cause : ParseError) :
    (fail cause : Plan goal ts).execute = .error cause := rfl

@[simp] theorem execute_done (found : goal.Result) (rest : Left ts) :
    (done found rest).execute = .ok (found, rest) := rfl

theorem execute_call_of_ok {found : callee.Result} {rest : Left us}
    (h : callee.read us = .ok (found, rest)) :
    (call callee us next hlt).execute = (next found rest).execute := by
  rw [execute, run, h]
  rfl

theorem exists_of_execute_call {result : goal.Result × Left ts}
    (h : (call callee us next hlt).execute = .ok result) :
    ∃ found rest, callee.read us = .ok (found, rest) ∧ (next found rest).execute = .ok result := by
  rw [execute, run] at h
  cases hread : callee.read us with
  | error cause =>
      rw [hread] at h
      cases h
  | ok answer =>
      rw [hread] at h
      exact ⟨answer.1, answer.2, rfl, h⟩

end Plan

theorem Goal.read_eq (goal : Goal) (ts : List Token) : goal.read ts = (goal.plan ts).execute := by
  rw [Goal.read, Plan.execute]

/-- What was read for a goal, in one type for all goals. -/
def Goal.found : (goal : Goal) → goal.Result → Found
  | .conditional, e | .level _, e | .operators _ _, e | .negation, e | .signed, e | .value, e =>
    .expr e
  | .items _, es | .more _, es => .items es

theorem Level.found_operand (l : Level) (found : l.operand.Result) :
    l.operand.found found = .expr (l.expr found) := by
  cases l <;> rfl

/-- Reading for a goal succeeds with `found` and leaves `rest`. -/
def Goal.Executes (goal : Goal) (ts : List Token) (found : Found) (rest : List Token) : Prop :=
  ∃ a h, goal.read ts = .ok (a, ⟨rest, h⟩) ∧ goal.found a = found

/-! ### From derivations to reading -/

theorem takeWord?_eq_none {word : String} {ts : List Token} (h : ts.head? ≠ some (.name word)) :
    takeWord? word ts = none := by
  unfold takeWord?
  split
  · simp_all
  · rfl

theorem take?_eq_none {token : Token} {ts : List Token} (h : ts.head? ≠ some token) :
    take? token ts = none := by
  unfold take?
  split <;> simp_all

theorem Derivation.execution {goal : Goal} {ts rest : List Token} {found : Found}
    (h : Derivation goal ts found rest) : goal.Executes ts found rest := by
  induction h with
  | plain _ hif hmark ih =>
      obtain ⟨_, hle, ebody, ⟨⟩⟩ := ih
      refine ⟨_, hle, ?_, rfl⟩
      rw [Goal.read_eq, Goal.plan, Plan.conditional, Plan.execute_call_of_ok ebody]
      simp only [takeWord?_eq_none hif, take?_eq_none hmark, Plan.execute_done]
  | chosen _ _ _ ihyes ihcondition ihno =>
      obtain ⟨_, hyes, eyes, ⟨⟩⟩ := ihyes
      obtain ⟨_, hcondition, econdition, ⟨⟩⟩ := ihcondition
      obtain ⟨_, hno, eno, ⟨⟩⟩ := ihno
      simp only [List.length_cons] at hyes hcondition
      refine ⟨_, by omega, ?_, rfl⟩
      rw [Goal.read_eq, Goal.plan, Plan.conditional, Plan.execute_call_of_ok eyes]
      simp only [takeWord?, if_true]
      rw [Plan.execute_call_of_ok econdition]
      simp only [if_true]
      rw [Plan.execute_call_of_ok eno, Plan.execute_done]
  | ternary _ _ _ ihcondition ihyes ihno =>
      obtain ⟨_, hcondition, econdition, ⟨⟩⟩ := ihcondition
      obtain ⟨_, hyes, eyes, ⟨⟩⟩ := ihyes
      obtain ⟨_, hno, eno, ⟨⟩⟩ := ihno
      simp only [List.length_cons] at hyes hcondition
      refine ⟨_, by omega, ?_, rfl⟩
      rw [Goal.read_eq, Goal.plan, Plan.conditional, Plan.execute_call_of_ok econdition]
      simp only [takeWord?, take?, if_true]
      rw [Plan.execute_call_of_ok eyes]
      simp only [if_true]
      rw [Plan.execute_call_of_ok eno, Plan.execute_done]
  | level _ _ ihleft ihrest =>
      obtain ⟨left, hleft, eleft, hfound⟩ := ihleft
      obtain ⟨_, hrest, erest, ⟨⟩⟩ := ihrest
      obtain rfl := Found.expr.inj ((Level.found_operand _ left).symm.trans hfound)
      refine ⟨_, Nat.le_trans hrest hleft, ?_, rfl⟩
      rw [Goal.read_eq, Goal.plan, Plan.level, Plan.execute_call_of_ok eleft,
        Plan.execute_call_of_ok erest, Plan.execute_done]
  | @stop level left rest hstop =>
      refine ⟨_, Nat.le_refl _, ?_, rfl⟩
      rw [Goal.read_eq, Goal.plan]
      cases rest with
      | nil => rfl
      | cons t rest =>
          have hnone : level.operator? t = none := by simpa using hstop
          simp only [Plan.operators, hnone, Plan.execute_done]
  | operator hop _ _ ihright ihrest =>
      obtain ⟨right, hright, eright, hfound⟩ := ihright
      obtain ⟨_, hrest, erest, ⟨⟩⟩ := ihrest
      obtain rfl := Found.expr.inj ((Level.found_operand _ right).symm.trans hfound)
      refine ⟨_, by simp only [List.length_cons]; omega, ?_, rfl⟩
      rw [Goal.read_eq, Goal.plan]
      simp only [Plan.operators, hop]
      rw [Plan.execute_call_of_ok eright, Plan.execute_call_of_ok erest, Plan.execute_done]
  | not _ ih =>
      obtain ⟨_, hle, eoperand, ⟨⟩⟩ := ih
      refine ⟨_, by simp only [List.length_cons]; omega, ?_, rfl⟩
      rw [Goal.read_eq, Goal.plan]
      simp only [Plan.negation, takeWord?, if_true]
      rw [Plan.execute_call_of_ok eoperand, Plan.execute_done]
  | comparison hnot _ ih =>
      obtain ⟨_, hle, eoperand, ⟨⟩⟩ := ih
      refine ⟨_, hle, ?_, rfl⟩
      rw [Goal.read_eq, Goal.plan]
      simp only [Plan.negation, takeWord?_eq_none hnot]
      rw [Plan.execute_call_of_ok eoperand, Plan.execute_done]
  | sign hsign _ ih =>
      obtain ⟨_, hle, eoperand, ⟨⟩⟩ := ih
      refine ⟨_, by simp only [List.length_cons]; omega, ?_, rfl⟩
      rw [Goal.read_eq, Goal.plan]
      simp only [Plan.signed, hsign]
      rw [Plan.execute_call_of_ok eoperand, Plan.execute_done]
  | @unsigned ts rest e hsign _ ih =>
      obtain ⟨_, hle, evalue, ⟨⟩⟩ := ih
      refine ⟨_, hle, ?_, rfl⟩
      rw [Goal.read_eq, Goal.plan]
      cases ts with
      | nil => rw [Plan.signed, Plan.execute_call_of_ok evalue, Plan.execute_done]
      | cons t ts =>
          have hnone : sign? t = none := by simpa using hsign
          simp only [Plan.signed, hnone]
          rw [Plan.execute_call_of_ok evalue, Plan.execute_done]
  | number =>
      refine ⟨_, by simp, ?_, rfl⟩
      rw [Goal.read_eq, Goal.plan, Plan.value, Plan.execute_done]
  | text =>
      refine ⟨_, by simp, ?_, rfl⟩
      rw [Goal.read_eq, Goal.plan, Plan.value, Plan.execute_done]
  | paren _ ih =>
      obtain ⟨_, hle, einner, ⟨⟩⟩ := ih
      simp only [List.length_cons] at hle
      refine ⟨_, by simp only [List.length_cons]; omega, ?_, rfl⟩
      rw [Goal.read_eq, Goal.plan, Plan.value, Plan.execute_call_of_ok einner]
      simp only [take?, if_true, Plan.execute_done]
  | array _ ih =>
      obtain ⟨_, hle, eitems, ⟨⟩⟩ := ih
      refine ⟨_, by simp only [List.length_cons]; omega, ?_, rfl⟩
      rw [Goal.read_eq, Goal.plan, Plan.value, Plan.execute_call_of_ok eitems, Plan.execute_done]
  | call _ ih =>
      obtain ⟨_, hle, eitems, ⟨⟩⟩ := ih
      refine ⟨_, by simp only [List.length_cons]; omega, ?_, rfl⟩
      rw [Goal.read_eq, Goal.plan, Plan.value, Plan.execute_call_of_ok eitems, Plan.execute_done]
  | word hcall =>
      refine ⟨_, by simp, ?_, rfl⟩
      rw [Goal.read_eq, Goal.plan, Plan.value, Plan.execute_done]
      intro inner hinner
      simp [hinner] at hcall
  | noItems =>
      refine ⟨_, by simp, ?_, rfl⟩
      rw [Goal.read_eq, Goal.plan]
      simp only [Plan.items, take?, if_true, Plan.execute_done]
  | items hclose _ _ ihfirst ihmore =>
      obtain ⟨_, hfirst, efirst, ⟨⟩⟩ := ihfirst
      obtain ⟨_, hmore, emore, ⟨⟩⟩ := ihmore
      refine ⟨_, Nat.le_trans hmore hfirst, ?_, rfl⟩
      rw [Goal.read_eq, Goal.plan]
      simp only [Plan.items, take?_eq_none hclose]
      rw [Plan.execute_call_of_ok efirst, Plan.execute_call_of_ok emore, Plan.execute_done]
  | close hcomma =>
      refine ⟨_, by simp, ?_, rfl⟩
      rw [Goal.read_eq, Goal.plan]
      simp only [Plan.more, take?, hcomma, if_false, if_true, Plan.execute_done]
  | next _ _ ihitem ihmore =>
      obtain ⟨_, hitem, eitem, ⟨⟩⟩ := ihitem
      obtain ⟨_, hmore, emore, ⟨⟩⟩ := ihmore
      refine ⟨_, by simp only [List.length_cons]; omega, ?_, rfl⟩
      rw [Goal.read_eq, Goal.plan]
      simp only [Plan.more, take?, if_true]
      rw [Plan.execute_call_of_ok eitem, Plan.execute_call_of_ok emore, Plan.execute_done]

/-! ### From reading to derivations -/

theorem eq_cons_of_takeWord? {word : String} {ts : List Token} {rest : Rest ts}
    (h : takeWord? word ts = some rest) : ts = .name word :: rest := by
  unfold takeWord? at h
  split at h
  · split at h
    · rename_i hn
      obtain rfl := Option.some.inj h
      simp [hn]
    · cases h
  · cases h

theorem eq_cons_of_take? {token : Token} {ts : List Token} {rest : Rest ts}
    (h : take? token ts = some rest) : ts = token :: rest := by
  unfold take? at h
  split at h
  · split at h
    · rename_i ht
      obtain rfl := Option.some.inj h
      simp [ht]
    · cases h
  · cases h

theorem head?_ne_of_takeWord? {word : String} {ts : List Token} (h : takeWord? word ts = none) :
    ts.head? ≠ some (.name word) := by
  intro hhead
  obtain ⟨rest, rfl⟩ := List.head?_eq_some_iff.mp hhead
  simp [takeWord?] at h

theorem head?_ne_of_take? {token : Token} {ts : List Token} (h : take? token ts = none) :
    ts.head? ≠ some token := by
  intro hhead
  obtain ⟨rest, rfl⟩ := List.head?_eq_some_iff.mp hhead
  simp [take?] at h

/-- What is read by calls of a smaller size is derived. -/
def DerivesBelow (n : Nat) : Prop :=
  ∀ (callee : Goal) (us : List Token) (found : callee.Result) (rest : Left us),
    callee.size us < n → callee.read us = .ok (found, rest) →
    Derivation callee us (callee.found found) rest

section

variable {ts : List Token}

theorem DerivesBelow.exists_of_call {goal callee : Goal} {us : List Token}
    {next : callee.Result → Left us → Plan goal ts} {hlt : callee.size us < goal.size ts}
    {result : goal.Result × Left ts} (hbelow : DerivesBelow (goal.size ts))
    (h : (Plan.call callee us next hlt).execute = .ok result) :
    ∃ found rest hle, Derivation callee us (callee.found found) rest ∧
      (next found ⟨rest, hle⟩).execute = .ok result := by
  obtain ⟨found, rest, hread, h⟩ := Plan.exists_of_execute_call h
  exact ⟨found, rest.1, rest.2, hbelow callee us found rest hlt hread, h⟩

theorem derivation_of_conditional {e : Expr} {rest : Left ts}
    (hbelow : DerivesBelow (Goal.conditional.size ts))
    (h : (Plan.conditional ts).execute = .ok (e, rest)) :
    Derivation .conditional ts (.expr e) rest := by
  obtain ⟨body, middle, _, hbody, h⟩ := hbelow.exists_of_call h
  cases hif : takeWord? "if" middle with
  | some afterIf =>
      simp only [hif] at h
      obtain ⟨condition, tail, _, hcondition, h⟩ := hbelow.exists_of_call h
      cases helse : takeWord? "else" tail with
      | none =>
          simp only [helse] at h
          cases h
      | some afterElse =>
          simp only [helse] at h
          obtain ⟨no, last, _, hno, h⟩ := hbelow.exists_of_call h
          cases h
          rw [eq_cons_of_takeWord? hif] at hbody
          rw [eq_cons_of_takeWord? helse] at hcondition
          exact .chosen hbody hcondition hno
  | none =>
      simp only [hif] at h
      cases hmark : take? .question middle with
      | none =>
          simp only [hmark] at h
          cases h
          exact .plain hbody (head?_ne_of_takeWord? hif) (head?_ne_of_take? hmark)
      | some afterMark =>
          simp only [hmark] at h
          obtain ⟨yes, tail, _, hyes, h⟩ := hbelow.exists_of_call h
          cases hcolon : take? .colon tail with
          | none =>
              simp only [hcolon] at h
              cases h
          | some afterColon =>
              simp only [hcolon] at h
              obtain ⟨no, last, _, hno, h⟩ := hbelow.exists_of_call h
              cases h
              rw [eq_cons_of_take? hmark] at hbody
              rw [eq_cons_of_take? hcolon] at hyes
              exact .ternary hbody hyes hno

theorem derivation_of_level {l : Level} {e : Expr} {rest : Left ts}
    (hbelow : DerivesBelow ((Goal.level l).size ts))
    (h : (Plan.level l ts).execute = .ok (e, rest)) : Derivation (.level l) ts (.expr e) rest := by
  obtain ⟨left, middle, _, hleft, h⟩ := hbelow.exists_of_call h
  obtain ⟨expr, last, _, hoperators, h⟩ := hbelow.exists_of_call h
  cases h
  rw [l.found_operand] at hleft
  exact .level hleft hoperators

theorem derivation_of_operators {l : Level} {left e : Expr} {rest : Left ts}
    (hbelow : DerivesBelow ((Goal.operators l left).size ts))
    (h : (Plan.operators l left ts).execute = .ok (e, rest)) :
    Derivation (.operators l left) ts (.expr e) rest := by
  cases ts with
  | nil =>
      cases h
      exact .stop rfl
  | cons t afterOp =>
      rw [Plan.operators] at h
      cases hop : l.operator? t with
      | none =>
          simp only [hop] at h
          cases h
          exact .stop hop
      | some op =>
          simp only [hop] at h
          obtain ⟨right, middle, _, hright, h⟩ := hbelow.exists_of_call h
          obtain ⟨expr, last, _, hoperators, h⟩ := hbelow.exists_of_call h
          cases h
          rw [l.found_operand] at hright
          exact .operator hop hright hoperators

theorem derivation_of_negation {e : Expr} {rest : Left ts}
    (hbelow : DerivesBelow (Goal.negation.size ts))
    (h : (Plan.negation ts).execute = .ok (e, rest)) : Derivation .negation ts (.expr e) rest := by
  rw [Plan.negation] at h
  cases hnot : takeWord? "not" ts with
  | none =>
      simp only [hnot] at h
      obtain ⟨operand, last, _, hoperand, h⟩ := hbelow.exists_of_call h
      cases h
      exact .comparison (head?_ne_of_takeWord? hnot) hoperand
  | some afterNot =>
      simp only [hnot] at h
      obtain ⟨operand, last, _, hoperand, h⟩ := hbelow.exists_of_call h
      cases h
      have hinner := Derivation.not hoperand
      rwa [← eq_cons_of_takeWord? hnot] at hinner

theorem derivation_of_signed {e : Expr} {rest : Left ts}
    (hbelow : DerivesBelow (Goal.signed.size ts))
    (h : (Plan.signed ts).execute = .ok (e, rest)) : Derivation .signed ts (.expr e) rest := by
  cases ts with
  | nil =>
      obtain ⟨operand, last, _, hvalue, h⟩ := hbelow.exists_of_call h
      cases h
      exact .unsigned rfl hvalue
  | cons t afterSign =>
      rw [Plan.signed] at h
      cases hop : sign? t with
      | none =>
          simp only [hop] at h
          obtain ⟨operand, last, _, hvalue, h⟩ := hbelow.exists_of_call h
          cases h
          exact .unsigned hop hvalue
      | some op =>
          simp only [hop] at h
          obtain ⟨operand, last, _, hoperand, h⟩ := hbelow.exists_of_call h
          cases h
          exact .sign hop hoperand

theorem derivation_of_value {e : Expr} {rest : Left ts}
    (hbelow : DerivesBelow (Goal.value.size ts))
    (h : (Plan.value ts).execute = .ok (e, rest)) : Derivation .value ts (.expr e) rest := by
  unfold Plan.value at h
  split at h
  · cases h
    exact .number
  · cases h
    exact .text
  · obtain ⟨expr, middle, _, hexpr, h⟩ := hbelow.exists_of_call h
    cases hclose : take? .rightParen middle with
    | none =>
        simp only [hclose] at h
        cases h
    | some last =>
        simp only [hclose] at h
        cases h
        rw [eq_cons_of_take? hclose] at hexpr
        exact .paren hexpr
  · obtain ⟨items, last, _, hitems, h⟩ := hbelow.exists_of_call h
    cases h
    exact .array hitems
  · obtain ⟨arguments, last, _, harguments, h⟩ := hbelow.exists_of_call h
    cases h
    exact .call harguments
  · rename_i n last hcall
    cases h
    refine .word ?_
    intro hhead
    obtain ⟨inner, hinner⟩ := List.head?_eq_some_iff.mp hhead
    exact hcall inner hinner
  · cases h

theorem derivation_of_items {close : Token} {es : List Expr} {rest : Left ts}
    (hbelow : DerivesBelow ((Goal.items close).size ts))
    (h : (Plan.items close ts).execute = .ok (es, rest)) :
    Derivation (.items close) ts (.items es) rest := by
  rw [Plan.items] at h
  cases hclose : take? close ts with
  | some last =>
      simp only [hclose] at h
      cases h
      have hnone := @Derivation.noItems close last.1
      rwa [← eq_cons_of_take? hclose] at hnone
  | none =>
      simp only [hclose] at h
      obtain ⟨first, middle, _, hfirst, h⟩ := hbelow.exists_of_call h
      obtain ⟨more, last, _, hmore, h⟩ := hbelow.exists_of_call h
      cases h
      exact .items (head?_ne_of_take? hclose) hfirst hmore

theorem derivation_of_more {close : Token} {es : List Expr} {rest : Left ts}
    (hbelow : DerivesBelow ((Goal.more close).size ts))
    (h : (Plan.more close ts).execute = .ok (es, rest)) :
    Derivation (.more close) ts (.items es) rest := by
  rw [Plan.more] at h
  cases hcomma : take? .comma ts with
  | none =>
      simp only [hcomma] at h
      cases hclose : take? close ts with
      | none =>
          simp only [hclose] at h
          cases h
      | some last =>
          simp only [hclose] at h
          cases h
          have hne : close ≠ .comma := by
            rintro rfl
            rw [hcomma] at hclose
            cases hclose
          have hend := @Derivation.close close last.1 hne
          rwa [← eq_cons_of_take? hclose] at hend
  | some afterComma =>
      simp only [hcomma] at h
      obtain ⟨item, middle, _, hitem, h⟩ := hbelow.exists_of_call h
      obtain ⟨more, last, _, hmore, h⟩ := hbelow.exists_of_call h
      cases h
      have hnext := Derivation.next hitem hmore
      rwa [← eq_cons_of_take? hcomma] at hnext

end

theorem Goal.derivation_of_read {goal : Goal} {ts : List Token} {found : goal.Result}
    {rest : Left ts} (h : goal.read ts = .ok (found, rest)) :
    Derivation goal ts (goal.found found) rest := by
  -- the induction is on the size, which decreases from a plan to its calls
  induction hn : goal.size ts using Nat.strongRecOn generalizing goal ts with
  | ind n ih =>
      subst hn
      have hbelow : DerivesBelow (goal.size ts) :=
        fun callee us found rest hlt hread => ih _ hlt hread rfl
      rw [read_eq] at h
      cases goal with
      | conditional => exact derivation_of_conditional hbelow h
      | level l => exact derivation_of_level hbelow h
      | operators l left => exact derivation_of_operators hbelow h
      | negation => exact derivation_of_negation hbelow h
      | signed => exact derivation_of_signed hbelow h
      | value => exact derivation_of_value hbelow h
      | items close => exact derivation_of_items hbelow h
      | more close => exact derivation_of_more hbelow h

theorem derivation_iff (goal : Goal) (ts : List Token) (found : Found) (rest : List Token) :
    Derivation goal ts found rest ↔ goal.Executes ts found rest := by
  refine ⟨Derivation.execution, ?_⟩
  rintro ⟨a, hle, hread, rfl⟩
  exact Goal.derivation_of_read hread

/-- A script is read in full exactly where its tokens derive one conditional and none is left. -/
theorem readTokens_eq_ok_iff (ts : List Token) (e : Expr) :
    readTokens ts = .ok e ↔ Derivation .conditional ts (.expr e) [] := by
  rw [derivation_iff]
  unfold readTokens
  constructor
  · intro h
    split at h
    · cases h
    · rename_i expr hle hread
      cases h
      exact ⟨e, hle, hread, rfl⟩
    · cases h
  · rintro ⟨a, hle, hread, ⟨⟩⟩
    rw [hread]

end SheetBoard.Script
