import SheetBoard.Proofs.Script.Brackets
import SheetBoard.Proofs.Script.Precedence

/-! Reading always gets on. Whatever is read successfully has taken tokens, and a plan calls for a
goal only behind tokens that were taken or, at the same place, for a tighter form. So the calls are
nested no deeper than the script is long, up to a factor, and each of them comes to an end. -/

namespace SheetBoard.Script

/-! ### What is taken -/

/-- At least one token stands between the two places. -/
def Behind (ts rest : List Token) : Prop := ∃ used, used ≠ [] ∧ ts = used ++ rest

namespace Behind

variable {ts us vs : List Token}

theorem trans (hts : Behind ts us) (hus : Behind us vs) : Behind ts vs := by
  obtain ⟨x, hx, rfl⟩ := hts
  obtain ⟨y, -, rfl⟩ := hus
  exact ⟨x ++ y, by simp [hx], by simp⟩

theorem cons (t : Token) (ts : List Token) : Behind (t :: ts) ts := ⟨[t], by simp, rfl⟩

theorem word {w : String} {rest : Rest ts} (h : takeWord? w ts = some rest) : Behind ts rest.1 :=
  ⟨[.name w], by simp, eq_cons_of_takeWord? h⟩

theorem token {t : Token} {rest : Rest ts} (h : take? t ts = some rest) : Behind ts rest.1 :=
  ⟨[t], by simp, eq_cons_of_take? h⟩

end Behind

/-- What is taken for a goal: at least one token. Only the loop over the operators of a level may end
at once, after an operand. -/
def Goal.Consumes : Goal → List Token → List Token → Prop
  | .operators _ _, ts, rest => rest <:+ ts
  | _, ts, rest => Behind ts rest

theorem Goal.consumes_of_read {goal : Goal} {ts : List Token} {found : goal.Result}
    {rest : Left ts} (h : goal.read ts = .ok (found, rest)) : goal.Consumes ts rest := by
  obtain ⟨used, hts, htakes⟩ := (derivation_of_read h).takes
  cases goal with
  | operators l left => exact ⟨used, hts.symm⟩
  | items close | more close =>
      obtain ⟨inner, rfl, -⟩ := htakes
      exact ⟨inner ++ [close], by simp, hts⟩
  | _ => exact ⟨used, htakes.1, hts⟩

/-! ### The calls of a plan -/

/-- The calls on the way, each of which is answered by reading for its goal. -/
def Plan.calls {goal : Goal} {ts : List Token} : Plan goal ts → List (Goal × List Token)
  | .fail _ => []
  | .done _ _ => []
  | .call callee us next _ =>
    match callee.read us with
    | .error _ => [(callee, us)]
    | .ok (found, rest) => (callee, us) :: (next found rest).calls

/-- The place of a goal among the forms, tighter ones being higher. A list of items is looser than
every item, and the loops over operators and items are no forms. -/
def Goal.rank? : Goal → Option Nat
  | .items _ => some 0
  | .conditional => some (Form.conditional.rank + 1)
  | .level l => some ((Form.binary l).rank + 1)
  | .negation => some (Form.negation.rank + 1)
  | .signed => some (Form.sign.rank + 1)
  | .value => some (Form.value.rank + 1)
  | .operators _ _ => none
  | .more _ => none

/-- A call goes to a tighter form. -/
def Goal.Descends (goal callee : Goal) : Prop :=
  ∃ m n, goal.rank? = some m ∧ callee.rank? = some n ∧ m < n

/-- A call stands behind tokens that were taken, or it goes to a tighter form at the same place. -/
def Goal.Leads (goal : Goal) (ts : List Token) (callee : Goal) (us : List Token) : Prop :=
  Behind ts us ∨ us = ts ∧ goal.Descends callee

theorem Level.descends_operand (l : Level) : (Goal.level l).Descends l.operand := by
  cases l <;> exact ⟨_, _, rfl, rfl, by decide⟩

theorem Level.behind_of_read {l : Level} {ts : List Token} {found : l.operand.Result}
    {rest : Left ts} (h : l.operand.read ts = .ok (found, rest)) : Behind ts rest := by
  have hconsumes := Goal.consumes_of_read h
  cases l <;> exact hconsumes

/-- All calls of a plan have a property. -/
def Plan.CallsOnly {goal : Goal} {ts : List Token} (p : Goal → List Token → Prop)
    (plan : Plan goal ts) : Prop :=
  ∀ c ∈ plan.calls, p c.1 c.2

namespace Plan.CallsOnly

variable {goal : Goal} {ts : List Token} {p : Goal → List Token → Prop}

theorem fail (cause : ParseError) : CallsOnly p (.fail cause : Plan goal ts) := by
  simp [CallsOnly, calls]

theorem done (found : goal.Result) (rest : Left ts) : CallsOnly p (.done found rest) := by
  simp [CallsOnly, calls]

theorem call {callee : Goal} {us : List Token} {next : callee.Result → Left us → Plan goal ts}
    {hlt : callee.size us < goal.size ts} (hcall : p callee us)
    (hnext : ∀ found rest, callee.read us = .ok (found, rest) → CallsOnly p (next found rest)) :
    CallsOnly p (.call callee us next hlt) := by
  intro c hc
  rw [calls] at hc
  split at hc
  · obtain rfl := List.mem_singleton.1 hc
    exact hcall
  · rename_i found rest hread
    rcases List.mem_cons.1 hc with rfl | hc
    · exact hcall
    · exact hnext found rest hread c hc

end Plan.CallsOnly

theorem callsOnly_conditional (ts : List Token) :
    (Plan.conditional ts).CallsOnly (Goal.conditional.Leads ts) := by
  -- only the first call stands at the same place, and it goes to the next tighter form
  refine .call (.inr ⟨rfl, _, _, rfl, rfl, by decide⟩) fun body rest hbody => ?_
  have hrest : Behind ts rest.1 := Goal.consumes_of_read hbody
  cases hif : takeWord? "if" rest.1 with
  | some afterIf =>
      simp only [hif]
      have hafterIf := hrest.trans (.word hif)
      refine .call (.inl hafterIf) fun condition rest hcondition => ?_
      have hrest : Behind ts rest.1 := hafterIf.trans (Goal.consumes_of_read hcondition)
      cases helse : takeWord? "else" rest.1 with
      | none => exact .fail _
      | some afterElse =>
          exact .call (.inl (hrest.trans (.word helse))) fun _ _ _ => .done _ _
  | none =>
      simp only [hif]
      cases hmark : take? .question rest.1 with
      | none => exact .done _ _
      | some afterMark =>
          have hafterMark := hrest.trans (.token hmark)
          refine .call (.inl hafterMark) fun yes rest hyes => ?_
          have hrest : Behind ts rest.1 := hafterMark.trans (Goal.consumes_of_read hyes)
          cases hcolon : take? .colon rest.1 with
          | none => exact .fail _
          | some afterColon =>
              exact .call (.inl (hrest.trans (.token hcolon))) fun _ _ _ => .done _ _

theorem callsOnly_level (l : Level) (ts : List Token) :
    (Plan.level l ts).CallsOnly ((Goal.level l).Leads ts) := by
  refine .call (.inr ⟨rfl, l.descends_operand⟩) fun left rest hleft => ?_
  exact .call (.inl (Level.behind_of_read hleft)) fun _ _ _ => .done _ _

theorem callsOnly_operators (l : Level) (left : Expr) (ts : List Token) :
    (Plan.operators l left ts).CallsOnly ((Goal.operators l left).Leads ts) := by
  cases ts with
  | nil => exact .done _ _
  | cons t afterOp =>
      rw [Plan.operators]
      cases l.operator? t with
      | none => exact .done _ _
      | some op =>
          have hafterOp := Behind.cons t afterOp
          refine .call (.inl hafterOp) fun right rest hright => ?_
          exact .call (.inl (hafterOp.trans (Level.behind_of_read hright))) fun _ _ _ => .done _ _

theorem callsOnly_negation (ts : List Token) :
    (Plan.negation ts).CallsOnly (Goal.negation.Leads ts) := by
  rw [Plan.negation]
  cases hnot : takeWord? "not" ts with
  | none => exact .call (.inr ⟨rfl, _, _, rfl, rfl, by decide⟩) fun _ _ _ => .done _ _
  | some afterNot => exact .call (.inl (.word hnot)) fun _ _ _ => .done _ _

theorem callsOnly_signed (ts : List Token) :
    (Plan.signed ts).CallsOnly (Goal.signed.Leads ts) := by
  cases ts with
  | nil => exact .call (.inr ⟨rfl, _, _, rfl, rfl, by decide⟩) fun _ _ _ => .done _ _
  | cons t afterSign =>
      rw [Plan.signed]
      cases sign? t with
      | none => exact .call (.inr ⟨rfl, _, _, rfl, rfl, by decide⟩) fun _ _ _ => .done _ _
      | some op => exact .call (.inl (.cons t afterSign)) fun _ _ _ => .done _ _

theorem callsOnly_value (ts : List Token) : (Plan.value ts).CallsOnly (Goal.value.Leads ts) := by
  unfold Plan.value
  split
  · exact .done _ _
  · exact .done _ _
  · refine .call (.inl (.cons _ _)) fun expr rest _ => ?_
    cases hclose : take? .rightParen rest.1 with
    | none =>
        simp only [hclose]
        exact .fail _
    | some last =>
        simp only [hclose]
        exact .done _ _
  · exact .call (.inl (.cons _ _)) fun _ _ _ => .done _ _
  · exact .call (.inl ((Behind.cons _ _).trans (.cons _ _))) fun _ _ _ => .done _ _
  · exact .done _ _
  · exact .fail _

theorem callsOnly_items (close : Token) (ts : List Token) :
    (Plan.items close ts).CallsOnly ((Goal.items close).Leads ts) := by
  rw [Plan.items]
  cases take? close ts with
  | some rest => exact .done _ _
  | none =>
      refine .call (.inr ⟨rfl, _, _, rfl, rfl, by decide⟩) fun first rest hfirst => ?_
      exact .call (.inl (Goal.consumes_of_read hfirst)) fun _ _ _ => .done _ _

theorem callsOnly_more (close : Token) (ts : List Token) :
    (Plan.more close ts).CallsOnly ((Goal.more close).Leads ts) := by
  rw [Plan.more]
  cases hcomma : take? .comma ts with
  | none =>
      cases take? close ts with
      | none => exact .fail _
      | some rest => exact .done _ _
  | some afterComma =>
      have hafterComma := Behind.token hcomma
      refine .call (.inl hafterComma) fun item rest hitem => ?_
      exact .call (.inl (hafterComma.trans (Goal.consumes_of_read hitem))) fun _ _ _ => .done _ _

theorem callsOnly_plan (goal : Goal) (ts : List Token) :
    (goal.plan ts).CallsOnly (goal.Leads ts) := by
  cases goal with
  | conditional => exact callsOnly_conditional ts
  | level l => exact callsOnly_level l ts
  | operators l left => exact callsOnly_operators l left ts
  | negation => exact callsOnly_negation ts
  | signed => exact callsOnly_signed ts
  | value => exact callsOnly_value ts
  | items close => exact callsOnly_items close ts
  | more close => exact callsOnly_more close ts

/-! ### The depth of the calls -/

/-- Reads with calls that are nested less than `n` deep. There is no outcome where this is too
little. -/
def Goal.readWithin : (n : Nat) → (goal : Goal) → (ts : List Token) → Option (goal.Outcome ts)
  | 0, _, _ => none
  | n + 1, goal, ts =>
    (goal.plan ts).run (m := ExceptT ParseError Option) fun callee us _ => readWithin n callee us

theorem Plan.run_some {goal : Goal} {ts : List Token} (plan : Plan goal ts) :
    plan.run (m := ExceptT ParseError Option) (fun callee us _ => some (callee.read us)) =
      some plan.execute := by
  induction plan with
  | fail cause => rfl
  | done found rest => rfl
  | call callee us next hlt ih =>
      rw [run, execute, run]
      cases callee.read us with
      | error cause => rfl
      | ok answer => exact ih answer.1 answer.2

theorem Goal.readWithin_eq {n : Nat} {goal : Goal} {ts : List Token} (h : goal.size ts < n) :
    readWithin n goal ts = some (goal.read ts) := by
  -- the induction is on the depth, and each call has a smaller size than its caller
  induction n generalizing goal ts with
  | zero => exact absurd h (Nat.not_lt_zero _)
  | succ n ih =>
      have hanswers : (fun (callee : Goal) (us : List Token) (_ : callee.size us < goal.size ts) =>
          readWithin n callee us) = fun callee us _ => some (callee.read us) := by
        funext callee us hlt
        exact ih (by omega)
      calc
        readWithin (n + 1) goal ts = (goal.plan ts).run (m := ExceptT ParseError Option)
            fun callee us _ => readWithin n callee us := rfl
        _ = (goal.plan ts).run (m := ExceptT ParseError Option)
            fun callee us _ => some (callee.read us) := by rw [hanswers]
        _ = some (goal.plan ts).execute := Plan.run_some _
        _ = some (goal.read ts) := by rw [read_eq]

/-! ### Whole scripts -/

theorem Scan.length_le {cs : List Char} {ls : List Lexeme} (h : Scan cs ls) :
    ls.length ≤ cs.length := by
  induction h with
  | done => exact Nat.zero_le _
  | token _ _ _ hx hne _ ih =>
      have hpos := List.length_pos_iff.2 hne
      rw [hx]
      simp only [List.length_cons, List.length_append]
      omega

theorem read_eq_ok_iff {script : List Char} {e : Expr} : read script = .ok e ↔
    ∃ h, Goal.conditional.read (tokens (Text.trim script)) = .ok (e, ⟨[], h⟩) := by
  rw [read, readTokens_eq_ok_iff, derivation_iff]
  constructor
  · rintro ⟨_, h, hread, ⟨⟩⟩
    exact ⟨h, hread⟩
  · rintro ⟨h, hread⟩
    exact ⟨e, h, hread, rfl⟩

theorem encloses_of_read {ts : List Token} {e : Expr} {h : [].length ≤ ts.length}
    (hread : Goal.conditional.read ts = .ok (e, ⟨[], h⟩)) : Encloses ts := by
  obtain ⟨used, hused, -, hencloses⟩ := (Goal.derivation_of_read hread).takes
  rw [List.append_nil] at hused
  exact hused ▸ hencloses

/-- Reading a script gets on and comes to an end. The scanner goes through the whole text, each
token taking characters of it. What is read successfully for a goal has taken tokens. Reading
carries the plan of the goal out, of which each call stands behind tokens that were taken or goes to
a tighter form. With calls nested no deeper than ten for each character, the script is read to an
outcome. It is read successfully exactly if no token is left, and the brackets outside its texts are
nested then. -/
theorem read_progress (script : List Char) :
    (∀ (goal : Goal) (ts : List Token) (found : goal.Result) (rest : Left ts),
      goal.read ts = .ok (found, rest) → goal.Consumes ts rest) ∧
    (∀ (goal : Goal) (ts : List Token),
      goal.read ts = (goal.plan ts).run (fun callee us _ => callee.read us) ∧
      ∀ c ∈ (goal.plan ts).calls, goal.Leads ts c.1 c.2) ∧
    (∀ n, 10 * (Text.trim script).length + 9 ≤ n →
      Goal.conditional.readWithin n (tokens (Text.trim script)) =
        some (Goal.conditional.read (tokens (Text.trim script)))) ∧
    ∃ ls, Scan (Text.trim script) ls ∧ ls.map Lexeme.token = tokens (Text.trim script) ∧
      ∀ e, (read script = .ok e ↔
          ∃ h, Goal.conditional.read (tokens (Text.trim script)) = .ok (e, ⟨[], h⟩)) ∧
        (read script = .ok e → WellNested (ls.flatMap Lexeme.brackets)) := by
  obtain ⟨ls, hscan, htokens, hbrackets⟩ := exists_scan (Text.trim script)
  refine ⟨fun _ _ _ _ h => Goal.consumes_of_read h, fun goal ts => ⟨goal.read_eq ts, ?_⟩, ?_,
    ls, hscan, htokens, fun e => ⟨read_eq_ok_iff, ?_⟩⟩
  · exact callsOnly_plan goal ts
  · intro n hn
    refine Goal.readWithin_eq ?_
    have hlength := hscan.length_le
    rw [← List.length_map Lexeme.token, htokens] at hlength
    simp only [Goal.size, Goal.height]
    omega
  · intro hread
    obtain ⟨h, hread⟩ := read_eq_ok_iff.1 hread
    rw [hbrackets]
    exact encloses_of_read hread

/-- The parenthesis in the text need not be closed. -/
theorem read_progress_bracket_in_text :
    read ['[', '"', '(', '"', ']'] = .ok (.array [.text "("]) ∧
      ∃ ls, Scan ['[', '"', '(', '"', ']'] ls ∧
        ls.map Lexeme.token = [.leftBracket, .text "(", .rightBracket] ∧
        WellNested (ls.flatMap Lexeme.brackets) := by
  have htokens : tokens ['[', '"', '(', '"', ']'] = [.leftBracket, .text "(", .rightBracket] := by
    rw [tokens_eq_cons rfl]
    refine congrArg _ ?_
    rw [tokens_eq_cons rfl]
    refine congrArg _ ?_
    rw [tokens_eq_cons rfl, tokens_eq_nil rfl]
    rfl
  have hparses : Parses .conditional [.leftBracket, .text "(", .rightBracket]
      (.array [.text "("]) :=
    (Parses.array (.cons ((Parses.text "(").loosen (by decide)) .nil)).loosen (by decide)
  have hread : read ['[', '"', '(', '"', ']'] = .ok (.array [.text "("]) := by
    have htrim : Text.trim ['[', '"', '(', '"', ']'] = ['[', '"', '(', '"', ']'] := rfl
    rw [read, htrim, htokens, readTokens_eq_ok_iff]
    exact hparses.derivation (by simp [Stops])
  obtain ⟨-, -, -, ls, hscan, hls, hall⟩ := read_progress ['[', '"', '(', '"', ']']
  exact ⟨hread, ls, hscan, hls.trans htokens, (hall _).2 hread⟩

end SheetBoard.Script
