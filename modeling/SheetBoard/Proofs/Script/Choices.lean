import Mathlib.Data.List.Forall2
import SheetBoard.Proofs.Script.Faults
import SheetBoard.Proofs.Script.Rowwise

/-! Choices by joined tests have two forms, operators that skip what does not matter and calls that
evaluate everything. The tests agree in truth only, the chosen values in full. -/

namespace SheetBoard.Script

/-! ### Decisions and their two forms -/

inductive Connective where
  | all | any
  deriving Repr, DecidableEq

mutual

/-- A value that tests choose, down to expressions. -/
inductive Decision where
  | leaf (e : Expr)
  | choose (test : Test) (yes no : Decision)

/-- A value that is true or not, or two and more tests in one. -/
inductive Test where
  | value (d : Decision)
  | join (connective : Connective) (first second : Test) (rest : List Test)

end

def Connective.operator : Connective → BinaryOp
  | .all => .and
  | .any => .or

def Connective.function : Connective → String
  | .all => "excelAnd"
  | .any => "excelOr"

mutual

/-- Conditionals, and chains of operators from the left. -/
def Decision.operators : Decision → Expr
  | .leaf e => e
  | .choose test yes no => .conditional test.operators yes.operators no.operators

def Test.operators : Test → Expr
  | .value d => d.operators
  | .join connective first second rest =>
    (second.operators :: Test.allOperators rest).foldl (.binary connective.operator) first.operators

def Test.allOperators : List Test → List Expr
  | [] => []
  | test :: rest => test.operators :: Test.allOperators rest

end

mutual

/-- Calls only. -/
def Decision.calls : Decision → Expr
  | .leaf e => e
  | .choose test yes no => .call "excelIf" [test.calls, yes.calls, no.calls]

def Test.calls : Test → Expr
  | .value d => d.calls
  | .join connective first second rest =>
    .call connective.function (first.calls :: second.calls :: Test.allCalls rest)

def Test.allCalls : List Test → List Expr
  | [] => []
  | test :: rest => test.calls :: Test.allCalls rest

end

mutual

def Decision.leaves : Decision → List Expr
  | .leaf e => [e]
  | .choose test yes no => test.leaves ++ yes.leaves ++ no.leaves

def Test.leaves : Test → List Expr
  | .value d => d.leaves
  | .join _ first second rest => first.leaves ++ second.leaves ++ Test.allLeaves rest

def Test.allLeaves : List Test → List Expr
  | [] => []
  | test :: rest => test.leaves ++ Test.allLeaves rest

end

/-! ### Joined values -/

namespace Connective

/-- What the connective makes of truth. -/
def truth : Connective → List Bool → Bool
  | .all, flags => flags.all id
  | .any, flags => flags.any id

/-- The operand that decides. -/
def pick (connective : Connective) (v w : Value) : Value :=
  if v.isTrue = (connective == .any) then v else w

def builtin : Connective → Builtin
  | .all => .allTrue
  | .any => .anyTrue

theorem truth_single (connective : Connective) (b : Bool) : connective.truth [b] = b := by
  cases connective <;> simp [truth]

theorem truth_isTrue_pick (connective : Connective) (v w : Value) (flags : List Bool) :
    connective.truth ((connective.pick v w).isTrue :: flags) =
      connective.truth (v.isTrue :: w.isTrue :: flags) := by
  cases connective <;> cases h : v.isTrue <;> simp [truth, pick, h]

theorem eval_operator (connective : Connective) {ctx : Context} {d e : Expr} {v w : Value}
    (hd : eval ctx d = .ok v) (he : eval ctx e = .ok w) :
    eval ctx (.binary connective.operator d e) = .ok (connective.pick v w) := by
  rw [eval, hd]
  cases connective <;> cases h : v.isTrue <;> simp [operator, pick, h, he]

theorem find?_function (connective : Connective) :
    Builtin.find? connective.function = some (connective.function, connective.builtin) := by
  cases connective <;> rfl

theorem apply_builtin (connective : Connective) (ctx : Context) (args : List Value) :
    connective.builtin.apply ctx args =
      .ok (.boolean (connective.truth ((args.flatMap Value.items).map Value.isTrue))) := by
  cases connective with
  | all =>
      rw [truth, List.all_map]
      rfl
  | any =>
      rw [truth, List.any_map]
      rfl

theorem admits_builtin (connective : Connective) {count : Nat} (h : 1 ≤ count) :
    connective.builtin.signature.Admits count := by
  cases connective <;> exact ⟨h, nofun⟩

end Connective

/-- The expression has this value, which is no array. -/
structure Single (ctx : Context) (e : Expr) (v : Value) : Prop where
  eval : eval ctx e = .ok v
  isArray : v.isArray = false

namespace Single

variable {ctx : Context} {connective : Connective} {d e : Expr} {es : List Expr} {v w : Value}
  {vs : List Value}

theorem operator (hd : Single ctx d v) (he : Single ctx e w) :
    Single ctx (.binary connective.operator d e) (connective.pick v w) where
  eval := connective.eval_operator hd.eval he.eval
  isArray := by
    unfold Connective.pick
    split
    · exact hd.isArray
    · exact he.isArray

/-- A chain gives one of its operands, which is as true as all of them together. -/
theorem chain (hes : List.Forall₂ (Single ctx) es vs) (he : Single ctx e v) :
    ∃ u, Single ctx (es.foldl (.binary connective.operator) e) u ∧
      u.isTrue = connective.truth (v.isTrue :: vs.map Value.isTrue) := by
  induction hes generalizing e v with
  | nil => exact ⟨v, he, (connective.truth_single _).symm⟩
  | cons hhead _ ih =>
      obtain ⟨u, hu, htruth⟩ := ih (he.operator hhead)
      exact ⟨u, hu, by rw [htruth, connective.truth_isTrue_pick, List.map_cons]⟩

theorem items (h : Single ctx e v) : v.items = [v] := by
  have hsingle := h.isArray
  cases v with
  | array items => cases hsingle
  | _ => rfl

theorem flatMap_items (h : List.Forall₂ (Single ctx) es vs) : vs.flatMap Value.items = vs := by
  induction h with
  | nil => rfl
  | cons hhead _ ih => rw [List.flatMap_cons, hhead.items, ih, List.singleton_append]

theorem evalAll (h : List.Forall₂ (Single ctx) es vs) : evalAll ctx es = .ok vs := by
  induction h with
  | nil => rw [Script.evalAll]
  | cons hhead _ ih => rw [Script.evalAll, hhead.eval, ih]

/-- A call gives the truth of all its arguments together. -/
theorem call (h : List.Forall₂ (Single ctx) es vs) (hes : 1 ≤ es.length) :
    Single ctx (.call connective.function es)
      (.boolean (connective.truth (vs.map Value.isTrue))) where
  eval := by
    have hresolve : resolveCall connective.function es.length = .ok connective.builtin :=
      resolveCall_eq_ok connective.find?_function (connective.admits_builtin hes)
    simp only [Script.eval, hresolve, evalAll h, connective.apply_builtin, flatMap_items h]
  isArray := rfl

end Single

/-! ### Agreement -/

/-- Both expressions have the same value. -/
def SameValue (ctx : Context) (d e : Expr) : Prop := ∃ v, Single ctx d v ∧ Single ctx e v

/-- Both expressions have a value, and one is as true as the other. -/
def SameTruth (ctx : Context) (d e : Expr) : Prop :=
  ∃ v w, Single ctx d v ∧ Single ctx e w ∧ v.isTrue = w.isTrue

section

variable {ctx : Context} {c c' d d' e e' : Expr} {ds es : List Expr}

theorem SameValue.sameTruth (h : SameValue ctx d e) : SameTruth ctx d e := by
  obtain ⟨v, hd, he⟩ := h
  exact ⟨v, v, hd, he, rfl⟩

/-- It is enough that the conditions agree in truth, since one of the branches is the value. -/
theorem SameValue.choose (hc : SameTruth ctx c c') (hd : SameValue ctx d d')
    (he : SameValue ctx e e') :
    SameValue ctx (.conditional c d e) (.call "excelIf" [c', d', e']) := by
  obtain ⟨u, u', hu, hu', htruth⟩ := hc
  obtain ⟨v, hv, hv'⟩ := hd
  obtain ⟨w, hw, hw'⟩ := he
  have hrow := eval_conditional hu.eval hv.eval hw.eval
  have hcolumn := eval_choice hu'.eval hv'.eval hw'.eval
  rw [Value.choice_single hu.isArray] at hrow
  rw [Value.choice_single hu'.isArray, ← htruth] at hcolumn
  refine ⟨if u.isTrue then v else w, ⟨hrow, ?_⟩, ⟨hcolumn, ?_⟩⟩
  all_goals
    split
    · exact hv.isArray
    · exact hw.isArray

/-- The values of both lists, side by side. -/
theorem exists_values (h : List.Forall₂ (SameTruth ctx) ds es) :
    ∃ vs ws, List.Forall₂ (Single ctx) ds vs ∧ List.Forall₂ (Single ctx) es ws ∧
      vs.map Value.isTrue = ws.map Value.isTrue := by
  induction h with
  | nil => exact ⟨[], [], .nil, .nil, rfl⟩
  | cons hhead _ ih =>
      obtain ⟨v, w, hv, hw, htruth⟩ := hhead
      obtain ⟨vs, ws, hvs, hws, htruths⟩ := ih
      exact ⟨v :: vs, w :: ws, .cons hv hvs, .cons hw hws, by simp [htruth, htruths]⟩

theorem SameTruth.join {connective : Connective} (h : SameTruth ctx d e)
    (hrest : List.Forall₂ (SameTruth ctx) ds es) :
    SameTruth ctx (ds.foldl (.binary connective.operator) d)
      (.call connective.function (e :: es)) := by
  obtain ⟨v, w, hv, hw, htruth⟩ := h
  obtain ⟨vs, ws, hvs, hws, htruths⟩ := exists_values hrest
  obtain ⟨u, hu, hchain⟩ := hv.chain hvs
  refine ⟨u, _, hu, .call (.cons hw hws) (by simp), ?_⟩
  rw [hchain, List.map_cons, htruth, htruths]
  rfl

end

/-- Every one of the expressions has a value that is no array. -/
def AllSingle (ctx : Context) (es : List Expr) : Prop := ∀ e ∈ es, ∃ v, Single ctx e v

theorem allSingle_append {ctx : Context} {ds es : List Expr} :
    AllSingle ctx (ds ++ es) ↔ AllSingle ctx ds ∧ AllSingle ctx es := List.forall_mem_append

mutual

theorem Decision.sameValue (ctx : Context) :
    ∀ d : Decision, AllSingle ctx d.leaves → SameValue ctx d.operators d.calls
  | .leaf e, h => by
      rw [Decision.leaves] at h
      rw [Decision.operators, Decision.calls]
      obtain ⟨v, hv⟩ := h e (by simp)
      exact ⟨v, hv, hv⟩
  | .choose test yes no, h => by
      rw [Decision.leaves, allSingle_append, allSingle_append] at h
      rw [Decision.operators, Decision.calls]
      obtain ⟨⟨htest, hyes⟩, hno⟩ := h
      exact .choose (Test.sameTruth ctx test htest) (Decision.sameValue ctx yes hyes)
        (Decision.sameValue ctx no hno)

theorem Test.sameTruth (ctx : Context) :
    ∀ test : Test, AllSingle ctx test.leaves → SameTruth ctx test.operators test.calls
  | .value d, h => by
      rw [Test.leaves] at h
      rw [Test.operators, Test.calls]
      exact (Decision.sameValue ctx d h).sameTruth
  | .join connective first second rest, h => by
      rw [Test.leaves, allSingle_append, allSingle_append] at h
      rw [Test.operators, Test.calls]
      obtain ⟨⟨hfirst, hsecond⟩, hrest⟩ := h
      exact .join (Test.sameTruth ctx first hfirst)
        (.cons (Test.sameTruth ctx second hsecond) (Test.all_sameTruth ctx rest hrest))

theorem Test.all_sameTruth (ctx : Context) :
    ∀ tests : List Test, AllSingle ctx (Test.allLeaves tests) →
      List.Forall₂ (SameTruth ctx) (Test.allOperators tests) (Test.allCalls tests)
  | [], _ => .nil
  | test :: rest, h => by
      rw [Test.allLeaves, allSingle_append] at h
      exact .cons (Test.sameTruth ctx test h.1) (Test.all_sameTruth ctx rest h.2)

end

/-- Where every leaf has a value that is no array, a decision has the same value in both forms. -/
theorem eval_operators_eq_calls (ctx : Context) (d : Decision)
    (h : ∀ e ∈ d.leaves, ∃ v, eval ctx e = .ok v ∧ v.isArray = false) :
    ∃ v, eval ctx d.operators = .ok v ∧ eval ctx d.calls = .ok v ∧ v.isArray = false := by
  have hleaves : AllSingle ctx d.leaves := by
    intro e he
    obtain ⟨v, hv, hsingle⟩ := h e he
    exact ⟨v, hv, hsingle⟩
  obtain ⟨v, hoperators, hcalls⟩ := Decision.sameValue ctx d hleaves
  exact ⟨v, hoperators.eval, hcalls.eval, hoperators.isArray⟩

/-- A conjunction with a choice in it, inside a disjunction: the operators give the number 2 as the
truth of the test, the calls give `true`. -/
theorem eval_operators_eq_calls_nested :
    let d : Decision := .choose
      (.join .any (.value (.leaf .null))
        (.join .all (.value (.leaf (.text "x")))
          (.value (.choose (.value (.leaf (.text ""))) (.leaf .null) (.leaf (.number 2)))) [])
        [.value (.leaf (.boolean false))])
      (.leaf (.text "yes")) (.leaf (.call "TODAY" []))
    let ctx : Context := ⟨none, ⟨2024, 2, 29⟩⟩
    (∀ e ∈ d.leaves, ∃ v, eval ctx e = .ok v ∧ v.isArray = false) ∧
      ∃ v, eval ctx d.operators = .ok v ∧ eval ctx d.calls = .ok v ∧ v.isArray = false := by
  intro d ctx
  have htoday : eval ctx (.call "TODAY" []) = .ok (Library.today ctx) := by
    have hresolve : resolveCall "TODAY" 0 = .ok .today := rfl
    simp [eval, evalAll, hresolve, Builtin.apply]
  have hleaves : ∀ e ∈ d.leaves, ∃ v, eval ctx e = .ok v ∧ v.isArray = false := by
    simp only [d, Decision.leaves, Test.leaves, Test.allLeaves, List.append_nil, List.cons_append,
      List.nil_append, List.forall_mem_cons]
    exact ⟨⟨.null, by rw [eval], rfl⟩, ⟨.text "x", by rw [eval], rfl⟩,
      ⟨.text "", by rw [eval], rfl⟩, ⟨.null, by rw [eval], rfl⟩, ⟨.number 2, by rw [eval], rfl⟩,
      ⟨.boolean false, by rw [eval], rfl⟩, ⟨.text "yes", by rw [eval], rfl⟩, ⟨_, htoday, rfl⟩,
      by simp⟩
  exact ⟨hleaves, eval_operators_eq_calls ctx d hleaves⟩

end SheetBoard.Script
