import Mathlib.Algebra.Group.Nat.Even
import SheetBoard.Script.Eval

/-! A script fails only for a name or a call that is wrong in the script itself. Whatever the data
is, a script without such a fault has a value, since the check of the number of arguments guards
every argument that a function reads. -/

namespace SheetBoard.Script

/-! ### Arguments that a function reads -/

theorem exists_fromFirst {args : List Value} (h : 1 ≤ args.length) (function : String)
    (f : Value → Value) : ∃ v, fromFirst function args f = .ok v := by
  cases args with
  | nil => simp at h
  | cons v args => exact ⟨f v, fromFirst_cons ..⟩

theorem exists_fromFirstTwo {args : List Value} (h : 2 ≤ args.length) (function : String)
    (f : Value → Value → Value) : ∃ v, fromFirstTwo function args f = .ok v := by
  match args, h with
  | v :: w :: args, _ => exact ⟨f v w, fromFirstTwo_cons ..⟩

theorem exists_criterionPairs {args : List Value} (h : Even args.length) :
    ∃ pairs, Library.criterionPairs args = .ok pairs := by
  fun_induction Library.criterionPairs args with
  | case1 => exact ⟨[], rfl⟩
  | case2 range => simp at h
  | case3 range criterion rest ih =>
      obtain ⟨pairs, hpairs⟩ := ih (by simpa [Nat.even_add_one] using h)
      exact ⟨(range.items, .ofValue criterion) :: pairs, by rw [hpairs]; rfl⟩

/-- Counting by criteria looks itself whether each range has one. -/
theorem countIfs_cases (args : List Value) :
    (∃ v, Library.countIfs args = .ok v) ∨
      ¬Even args.length ∧
        Library.countIfs args = .error (.argumentCount "COUNTIFS" .pairs args.length) := by
  unfold Library.countIfs
  by_cases h : Even args.length
  · obtain ⟨pairs, hpairs⟩ := exists_criterionPairs h
    rw [if_neg (not_not.2 (Nat.even_iff.1 h)), hpairs]
    exact .inl ⟨_, rfl⟩
  · exact .inr ⟨h, if_pos (by simpa [Nat.even_iff] using h)⟩

/-! ### Calls -/

/-- The numbers of arguments within the bounds of a signature. -/
def Signature.Admits (signature : Signature) (count : Nat) : Prop :=
  signature.least ≤ count ∧ ∀ most ∈ signature.most, count ≤ most

instance (signature : Signature) (count : Nat) : Decidable (signature.Admits count) :=
  inferInstanceAs (Decidable (_ ∧ ∀ most ∈ signature.most, count ≤ most))

theorem resolveCall_eq_ok {name found : String} {function : Builtin} {count : Nat}
    (hfind : Builtin.find? name = some (found, function)) (h : function.signature.Admits count) :
    resolveCall name count = .ok function := by
  simp only [resolveCall, hfind, if_neg (Nat.not_lt.2 h.1)]
  cases hmost : function.signature.most with
  | none => rfl
  | some most => exact if_neg (Nat.not_lt.2 (h.2 most hmost))

/-- Within the bounds of its signature, a function finds every argument that it reads. -/
theorem Builtin.apply_cases (ctx : Context) {function : Builtin} {args : List Value}
    (h : function.signature.Admits args.length) :
    (∃ v, function.apply ctx args = .ok v) ∨
      function = .countIfs ∧ ¬Even args.length ∧
        function.apply ctx args = .error (.argumentCount "COUNTIFS" .pairs args.length) := by
  have hleast := h.1
  cases function with
  | countIfs => exact (countIfs_cases args).imp id fun hodd => ⟨rfl, hodd⟩
  | sumIf | countIf | lookup | growth => exact .inl (exists_fromFirstTwo hleast _ _)
  | hour | timeValue | year | month | round | abs | floor | truncate | choice | unique | index
  | columnFrom | cellAt => exact .inl (exists_fromFirst (Nat.le_trans (by decide) hleast) _ _)
  | _ => exact .inl ⟨_, rfl⟩

/-! ### Faults -/

/-- Something in the expression is wrong, for this reason. -/
inductive Expr.Faulty : Expr → ScriptError → Prop where
  | unknownName {name} (hnan : name ≠ "NaN") (hinfinity : name ≠ "Infinity") :
    Faulty (.name name) (.unknownName name)
  | unknownFunction {function arguments} (hfind : Builtin.find? function = none) :
    Faulty (.call function arguments) (.unknownFunction function)
  | fewArguments {function arguments found} {builtin : Builtin}
    (hfind : Builtin.find? function = some (found, builtin))
    (hcount : arguments.length < builtin.signature.least) :
    Faulty (.call function arguments)
      (.argumentCount function (.atLeast builtin.signature.least) arguments.length)
  | manyArguments {function arguments found most} {builtin : Builtin}
    (hfind : Builtin.find? function = some (found, builtin))
    (hmost : builtin.signature.most = some most) (hcount : most < arguments.length) :
    Faulty (.call function arguments)
      (.argumentCount function (.atMost most) arguments.length)
  | unpaired {function arguments found}
    (hfind : Builtin.find? function = some (found, .countIfs))
    (hcount : ¬Even arguments.length) :
    Faulty (.call function arguments) (.argumentCount "COUNTIFS" .pairs arguments.length)
  | item {items item error} (hmem : item ∈ items) (h : Faulty item error) :
    Faulty (.array items) error
  | left {op left right error} (h : Faulty left error) : Faulty (.binary op left right) error
  | right {op left right error} (h : Faulty right error) : Faulty (.binary op left right) error
  | operand {op operand error} (h : Faulty operand error) : Faulty (.unary op operand) error
  | condition {condition yes no error} (h : Faulty condition error) :
    Faulty (.conditional condition yes no) error
  | yes {condition yes no error} (h : Faulty yes error) :
    Faulty (.conditional condition yes no) error
  | no {condition yes no error} (h : Faulty no error) :
    Faulty (.conditional condition yes no) error
  | argument {function arguments argument error} (hmem : argument ∈ arguments)
    (h : Faulty argument error) : Faulty (.call function arguments) error

theorem faulty_of_nameValue {name : String} {error : ScriptError}
    (h : nameValue name = .error error) : (Expr.name name).Faulty error := by
  unfold nameValue at h
  split at h
  · cases h
  · split at h
    · cases h
    · cases h
      exact .unknownName ‹_› ‹_›

theorem resolveCall_cases (name : String) (arguments : List Expr) :
    (∃ found function, Builtin.find? name = some (found, function) ∧
      function.signature.Admits arguments.length ∧
      resolveCall name arguments.length = .ok function) ∨
    ∃ error, resolveCall name arguments.length = .error error ∧
      (Expr.call name arguments).Faulty error := by
  cases hfind : Builtin.find? name with
  | none => exact .inr ⟨_, by simp only [resolveCall, hfind], .unknownFunction hfind⟩
  | some entry =>
      obtain ⟨found, function⟩ := entry
      by_cases hleast : arguments.length < function.signature.least
      · exact .inr ⟨_, by simp only [resolveCall, hfind, if_pos hleast],
          .fewArguments hfind hleast⟩
      · by_cases hmost : ∀ most ∈ function.signature.most, arguments.length ≤ most
        · have hadmits : function.signature.Admits arguments.length :=
            ⟨Nat.not_lt.1 hleast, hmost⟩
          exact .inl ⟨found, function, rfl, hadmits, resolveCall_eq_ok hfind hadmits⟩
        · obtain ⟨most, hmem, hcount⟩ : ∃ most, function.signature.most = some most ∧
              most < arguments.length := by simpa using hmost
          refine .inr ⟨_, ?_, .manyArguments hfind hmem hcount⟩
          simp only [resolveCall, hfind, if_neg hleast, hmem, if_pos hcount]

theorem length_evalAll {ctx : Context} {es : List Expr} {vs : List Value}
    (h : evalAll ctx es = .ok vs) : vs.length = es.length := by
  induction es generalizing vs with
  | nil =>
      rw [evalAll] at h
      cases h
      rfl
  | cons e es ih =>
      rw [evalAll] at h
      split at h
      · cases h
      · split at h
        · cases h
        · cases h
          simp [ih ‹_›]

mutual

/-- A script fails only for a fault of its own. -/
theorem faulty_of_eval {ctx : Context} {error : ScriptError} :
    ∀ {e : Expr}, eval ctx e = .error error → e.Faulty error
  | .number _, h | .text _, h | .boolean _, h | .null, h => by simp [eval] at h
  | .array items, h => by
      rw [eval] at h
      split at h
      next _ hitems =>
        cases h
        obtain ⟨item, hmem, hitem⟩ := faulty_of_evalAll hitems
        exact .item hmem hitem
      next => cases h
  | .name name, h => faulty_of_nameValue (by rwa [eval] at h)
  | .binary op left right, h => by
      rw [eval] at h
      split at h
      next _ hleft =>
        cases h
        exact .left (faulty_of_eval hleft)
      next =>
        split at h
        · cases h
        · split at h
          · cases h
          · split at h
            next _ hright =>
              cases h
              exact .right (faulty_of_eval hright)
            next => split at h <;> cases h
  | .unary op operand, h => by
      rw [eval] at h
      split at h
      next _ hoperand =>
        cases h
        exact .operand (faulty_of_eval hoperand)
      next => cases h
  | .conditional condition yes no, h => by
      rw [eval] at h
      split at h
      next _ hcondition =>
        cases h
        exact .condition (faulty_of_eval hcondition)
      next =>
        split at h
        next _ hyes =>
          cases h
          exact .yes (faulty_of_eval hyes)
        next =>
          split at h
          next _ hno =>
            cases h
            exact .no (faulty_of_eval hno)
          next => cases h
      next =>
        split at h
        · exact .yes (faulty_of_eval h)
        · exact .no (faulty_of_eval h)
  | .call function arguments, h => by
      rw [eval] at h
      obtain ⟨found, builtin, hfind, hadmits, hresolve⟩ | ⟨_, hresolve, hfaulty⟩ :=
        resolveCall_cases function arguments
      · simp only [hresolve] at h
        split at h
        next _ harguments =>
          cases h
          obtain ⟨argument, hmem, hargument⟩ := faulty_of_evalAll harguments
          exact .argument hmem hargument
        next args hargs =>
          have hlength := length_evalAll hargs
          rw [← hlength] at hadmits
          obtain ⟨v, hv⟩ | ⟨rfl, hodd, herror⟩ := builtin.apply_cases ctx hadmits
          · simp [hv] at h
          · rw [herror, hlength] at h
            cases h
            exact .unpaired hfind (hlength ▸ hodd)
      · simp only [hresolve] at h
        cases h
        exact hfaulty

theorem faulty_of_evalAll {ctx : Context} {error : ScriptError} :
    ∀ {es : List Expr}, evalAll ctx es = .error error → ∃ e ∈ es, e.Faulty error
  | [], h => by simp [evalAll] at h
  | e :: es, h => by
      rw [evalAll] at h
      split at h
      next _ he =>
        cases h
        exact ⟨e, .head _, faulty_of_eval he⟩
      next =>
        split at h
        next _ hes =>
          cases h
          obtain ⟨e', hmem, he'⟩ := faulty_of_evalAll hes
          exact ⟨e', .tail _ hmem, he'⟩
        next => cases h

end

/-! ### Expressions without a fault -/

/-- Names are literals, and each call gives a known function as many arguments as it takes. -/
inductive Expr.WellFormed : Expr → Prop where
  | number (x) : WellFormed (.number x)
  | text (s) : WellFormed (.text s)
  | boolean (b) : WellFormed (.boolean b)
  | null : WellFormed .null
  | array {items} (hitems : ∀ item ∈ items, WellFormed item) : WellFormed (.array items)
  | name {name} (hname : name = "NaN" ∨ name = "Infinity") : WellFormed (.name name)
  | binary {op left right} (hleft : WellFormed left) (hright : WellFormed right) :
    WellFormed (.binary op left right)
  | unary {op operand} (hoperand : WellFormed operand) : WellFormed (.unary op operand)
  | conditional {condition yes no} (hcondition : WellFormed condition) (hyes : WellFormed yes)
    (hno : WellFormed no) : WellFormed (.conditional condition yes no)
  | call {function found builtin} {arguments : List Expr}
    (hfind : Builtin.find? function = some (found, builtin))
    (hcount : builtin.signature.Admits arguments.length)
    (hpairs : builtin = .countIfs → Even arguments.length)
    (harguments : ∀ argument ∈ arguments, WellFormed argument) :
    WellFormed (.call function arguments)

theorem Expr.WellFormed.not_faulty {e : Expr} (h : e.WellFormed) {error : ScriptError} :
    ¬e.Faulty error := by
  intro hfaulty
  induction hfaulty with
  | unknownName hnan hinfinity =>
      cases h with
      | name hname => exact hname.elim hnan hinfinity
  | unknownFunction hnone =>
      cases h with
      | call hfind => simp [hnone] at hfind
  | fewArguments hbuiltin hfew =>
      cases h with
      | call hfind hcount =>
          cases hfind.symm.trans hbuiltin
          exact Nat.not_le.2 hfew hcount.1
  | manyArguments hbuiltin hmost hmany =>
      cases h with
      | call hfind hcount =>
          cases hfind.symm.trans hbuiltin
          exact Nat.not_le.2 hmany (hcount.2 _ hmost)
  | unpaired hbuiltin hodd =>
      cases h with
      | call hfind _ hpairs =>
          cases hfind.symm.trans hbuiltin
          exact hodd (hpairs rfl)
  | item hmem _ ih =>
      cases h with
      | array hitems => exact ih (hitems _ hmem)
  | left _ ih =>
      cases h with
      | binary hleft _ => exact ih hleft
  | right _ ih =>
      cases h with
      | binary _ hright => exact ih hright
  | operand _ ih =>
      cases h with
      | unary hoperand => exact ih hoperand
  | condition _ ih =>
      cases h with
      | conditional hcondition => exact ih hcondition
  | yes _ ih =>
      cases h with
      | conditional _ hyes => exact ih hyes
  | no _ ih =>
      cases h with
      | conditional _ _ hno => exact ih hno
  | argument hmem _ ih =>
      cases h with
      | call _ _ _ harguments => exact ih (harguments _ hmem)

/-- On any table or none, and on any day, a well-formed expression has a value. Within the bounds of
its signature a function finds what it reads; only criteria can be missing, which it looks for. An
expression that fails has a fault of its own. -/
theorem eval_wellFormed (ctx : Context) :
    (∀ e : Expr, e.WellFormed → ∃ v, eval ctx e = .ok v) ∧
    (∀ (function : Builtin) (args : List Value), function.signature.Admits args.length →
      (∃ v, function.apply ctx args = .ok v) ∨
        function = .countIfs ∧ ¬Even args.length ∧
          function.apply ctx args = .error (.argumentCount "COUNTIFS" .pairs args.length)) ∧
    ∀ (e : Expr) (error : ScriptError), eval ctx e = .error error → e.Faulty error := by
  refine ⟨fun e he => ?_, fun function args h => function.apply_cases ctx h, fun e error h => ?_⟩
  · cases h : eval ctx e with
    | ok v => exact ⟨v, rfl⟩
    | error error => exact absurd (faulty_of_eval h) he.not_faulty
  · exact faulty_of_eval h

/-- Criteria and look-ups on values of the wrong kinds, without a table. -/
theorem eval_wellFormed_kinds :
    let e : Expr := .call "countifs" [
      .array [.null, .array [.name "NaN"], .text "x"], .unary .negate (.text "y"),
      .call "getColumnData" [.array [], .name "Infinity"], .call "INDEX" [.null, .boolean true]]
    e.WellFormed ∧ ∃ v, eval ⟨none, ⟨2024, 2, 29⟩⟩ e = .ok v := by
  intro e
  have hrange : (Expr.array [.null, .array [.name "NaN"], .text "x"]).WellFormed := by
    have hinner : (Expr.array [.name "NaN"]).WellFormed := .array (by simpa using .name (.inl rfl))
    exact .array (by simpa using ⟨.null, hinner, .text "x"⟩)
  have hcriterion : (Expr.unary .negate (.text "y")).WellFormed := .unary (.text "y")
  have hcolumn : (Expr.call "getColumnData" [.array [], .name "Infinity"]).WellFormed := by
    have hfind : Builtin.find? "getColumnData" = some ("getColumnData", .columnFrom) := rfl
    refine .call hfind (by decide) nofun ?_
    simpa using ⟨.array (by simp), .name (.inr rfl)⟩
  have hindex : (Expr.call "INDEX" [.null, .boolean true]).WellFormed := by
    have hfind : Builtin.find? "INDEX" = some ("INDEX", .index) := rfl
    refine .call hfind (by decide) nofun ?_
    simpa using ⟨.null, .boolean true⟩
  have he : e.WellFormed := by
    have hfind : Builtin.find? "countifs" = some ("COUNTIFS", .countIfs) := rfl
    refine .call hfind (by decide) (fun _ => by decide) ?_
    simpa using ⟨hrange, hcriterion, hcolumn, hindex⟩
  exact ⟨he, (eval_wellFormed _).1 e he⟩

end SheetBoard.Script
