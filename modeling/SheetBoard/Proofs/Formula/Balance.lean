import Mathlib.Data.List.TakeWhile
import SheetBoard.Proofs.Formula.Literals

/-! Any text, seen from within a call: its parentheses and commas, the depth along it, and the count
of the call's arguments. A balanced text adds no argument to a call that it stands in, and the count
is over at the parenthesis that closes the call. -/

namespace SheetBoard.Formula

/-! ### Punctuation -/

/-- What a character counts for between parentheses. -/
inductive Punctuation where
  | left | right | comma | plain
  deriving Repr, DecidableEq

/-- Nothing counts in a literal. -/
def punctuation (st : QuoteState) (c : Char) : Punctuation :=
  if st ≠ .outside then .plain
  else if c = '(' then .left
  else if c = ')' then .right
  else if c = ',' then .comma
  else .plain

@[simp] theorem punctuation_left : punctuation .outside '(' = .left := rfl

@[simp] theorem punctuation_right : punctuation .outside ')' = .right := rfl

@[simp] theorem punctuation_comma : punctuation .outside ',' = .comma := rfl

theorem punctuation_eq_plain {c : Char} (h : c ∉ ['(', ')', ',']) (st : QuoteState) :
    punctuation st c = .plain := by
  simp only [List.mem_cons, List.not_mem_nil, or_false, not_or] at h
  obtain ⟨hleft, hright, hcomma⟩ := h
  simp [punctuation, hleft, hright, hcomma]

section

variable {st : QuoteState} {c : Char}

theorem punctuation_eq_left (h : punctuation st c = .left) : st = .outside ∧ c = '(' := by
  unfold punctuation at h
  grind

theorem punctuation_eq_right (h : punctuation st c = .right) : st = .outside ∧ c = ')' := by
  unfold punctuation at h
  grind

theorem punctuation_eq_comma (h : punctuation st c = .comma) : st = .outside ∧ c = ',' := by
  unfold punctuation at h
  grind

theorem ne_of_punctuation (hst : st = .outside)
    (h : punctuation st c ≠ .left ∧ punctuation st c ≠ .right) : c ≠ '(' ∧ c ≠ ')' := by
  subst hst
  exact ⟨by rintro rfl; exact h.1 rfl, by rintro rfl; exact h.2 rfl⟩

end

/-! ### Depth -/

/-- The depth behind a character; one parenthesis too many has none. -/
def depthStep : Nat → Punctuation → Option Nat
  | d, .left => some (d + 1)
  | 0, .right => none
  | d + 1, .right => some d
  | d, .comma => some d
  | d, .plain => some d

def depthAfter (d : Nat) (st : QuoteState) : List Char → Option Nat
  | [] => some d
  | c :: rest => (depthStep d (punctuation st c)).bind fun d => depthAfter d (st.step c) rest

theorem depthAfter_append (d : Nat) (st : QuoteState) (a b : List Char) :
    depthAfter d st (a ++ b) =
      (depthAfter d st a).bind fun e => depthAfter e (st.run a) b := by
  induction a generalizing d st with
  | nil => rfl
  | cons c a ih =>
      rw [List.cons_append, depthAfter, depthAfter]
      cases depthStep d (punctuation st c) with
      | none => rfl
      | some e => simpa using ih e (st.step c)

/-- The text closes its literals, and its parentheses match. -/
structure Balanced (x : List Char) : Prop where
  closed : Closed x
  depth : depthAfter 0 .outside x = some 0

namespace Balanced

variable {x y : List Char}

theorem nil : Balanced [] := ⟨rfl, rfl⟩

theorem append (hx : Balanced x) (hy : Balanced y) : Balanced (x ++ y) where
  closed := hx.closed.append hy.closed
  depth := by
    rw [depthAfter_append, hx.depth, Option.bind_some, hx.closed, hy.depth]

theorem plain (h : ∀ c ∈ x, isQuote c = false ∧ c ≠ '(' ∧ c ≠ ')') : Balanced x := by
  induction x with
  | nil => exact nil
  | cons c x ih =>
      obtain ⟨hquote, hleft, hright⟩ := h c (by simp)
      have hc : Balanced [c] := by
        refine ⟨QuoteState.step_outside hquote, ?_⟩
        by_cases hcomma : c = ','
        · subst hcomma
          rfl
        · rw [depthAfter, punctuation_eq_plain (by simp [hleft, hright, hcomma])]
          rfl
      exact hc.append (ih fun d hd => h d (by simp [hd]))

theorem intercalate {separator : List Char} (hseparator : Balanced separator)
    {xs : List (List Char)} (h : ∀ x ∈ xs, Balanced x) : Balanced (separator.intercalate xs) := by
  induction xs with
  | nil => exact nil
  | cons x xs ih =>
      obtain ⟨hx, hxs⟩ := List.forall_mem_cons.1 h
      cases xs with
      | nil => simpa using hx
      | cons y ys =>
          rw [List.intercalate_cons_cons]
          exact (hx.append hseparator).append (ih hxs)

end Balanced

theorem depthAfter_blanks {x : List Char} (h : ∀ c ∈ x, Text.isBlank c = true) (d : Nat) :
    depthAfter d .outside x = some d := by
  induction x with
  | nil => rfl
  | cons c x ih =>
      have hc : Text.isBlank c = true := h c (by simp)
      rw [depthAfter, punctuation_eq_plain (notMem_of_isBlank hc (by decide)),
        QuoteState.step_outside (isQuote_eq_false_of_isBlank hc)]
      exact ih fun d hd => h d (by simp [hd])

/-- A text between blanks. -/
theorem exists_trim (x : List Char) : ∃ l r, x = l ++ (Text.trim x ++ r) ∧
    (∀ c ∈ l, Text.isBlank c = true) ∧ ∀ c ∈ r, Text.isBlank c = true := by
  refine ⟨x.takeWhile Text.isBlank,
    ((Text.trimStart x).reverse.takeWhile Text.isBlank).reverse, ?_, ?_, ?_⟩
  · have hend : Text.trim x ++ ((Text.trimStart x).reverse.takeWhile Text.isBlank).reverse =
        Text.trimStart x := by
      rw [Text.trim, Text.trimEnd, Text.dropEndWhile, ← List.reverse_append,
        List.takeWhile_append_dropWhile, List.reverse_reverse]
    rw [hend]
    exact List.takeWhile_append_dropWhile.symm
  · exact fun _ => List.mem_takeWhile_imp
  · exact fun _ hc => List.mem_takeWhile_imp (List.mem_reverse.1 hc)

theorem Balanced.trim {x : List Char} (h : Balanced x) : Balanced (Text.trim x) := by
  have hclosed : Closed (Text.trim x) := (SameLiterals.trim h.closed).left
  obtain ⟨l, r, hx, hl, hr⟩ := exists_trim x
  have hfront : Unquoted l := fun c hc => isQuote_eq_false_of_isBlank (hl c hc)
  have hdepth := h.depth
  rw [hx, depthAfter_append, depthAfter_blanks hl, Option.bind_some, hfront.run, depthAfter_append,
    hclosed] at hdepth
  obtain ⟨e, he, hend⟩ := Option.bind_eq_some_iff.1 hdepth
  rw [depthAfter_blanks hr] at hend
  exact ⟨hclosed, he.trans hend⟩

/-! ### Arguments along a text -/

/-- The arguments of one call as they are counted: the depth within the call, whether the argument
at hand has any character, and the number of those before it; or the call is over. -/
inductive Tally where
  | running (depth : Nat) (filled : Bool) (before : Nat)
  | closed (size : Nat)
  deriving Repr, DecidableEq

namespace Tally

/-- Behind the parenthesis of a call. -/
def start : Tally := running 0 false 0

/-- An empty last argument does not count. -/
def step : Tally → Punctuation → Tally
  | closed n, _ => closed n
  | running d _ n, .left => running (d + 1) true n
  | running 0 filled n, .right => closed (if filled then n + 1 else n)
  | running (d + 1) _ n, .right => running d true n
  | running 0 _ n, .comma => running 0 false (n + 1)
  | running (d + 1) _ n, .comma => running (d + 1) true n
  | running d _ n, .plain => running d true n

def run (t : Tally) (st : QuoteState) : List Char → Tally
  | [] => t
  | c :: rest => (t.step (punctuation st c)).run (st.step c) rest

/-- The number of arguments, if the call is over. -/
def size? : Tally → Option Nat
  | running .. => none
  | closed n => some n

/-- Behind a character that is no punctuation. -/
def fill : Tally → Tally
  | running d _ n => running d true n
  | closed n => closed n

@[simp] theorem fill_fill (t : Tally) : t.fill.fill = t.fill := by cases t <;> rfl

@[simp] theorem step_plain (t : Tally) : t.step .plain = t.fill := by cases t <;> rfl

theorem run_append (t : Tally) (st : QuoteState) (a b : List Char) :
    t.run st (a ++ b) = (t.run st a).run (st.run a) b := by
  induction a generalizing t st with
  | nil => rfl
  | cons c a ih => exact ih _ _

@[simp] theorem run_closed (n : Nat) (st : QuoteState) (x : List Char) :
    (closed n).run st x = closed n := by
  induction x generalizing st with
  | nil => rfl
  | cons c x ih => exact ih _

/-- Plain text fills the argument at hand. -/
theorem run_plain (t : Tally) {x : List Char} (hne : x ≠ [])
    (h : ∀ c ∈ x, c ∉ ['(', ')', ',']) (st : QuoteState) : t.run st x = t.fill := by
  induction x generalizing t st with
  | nil => exact absurd rfl hne
  | cons c x ih =>
      rw [run, punctuation_eq_plain (h c (by simp)), step_plain]
      cases x with
      | nil => rfl
      | cons d x => rw [ih _ (by simp) fun e he => h e (by simp [he]), fill_fill]

theorem step_nested {e e' : Nat} {p : Punctuation} (h : depthStep e p = some e') (d n : Nat) :
    (running (d + e + 1) true n).step p = running (d + e' + 1) true n := by
  cases p with
  | right =>
      cases e with
      | zero => cases h
      | succ e =>
          obtain rfl : e = e' := Option.some.inj h
          rfl
  | _ =>
      obtain rfl := Option.some.inj h
      rfl

/-- Within a parenthesis of the call, no comma counts. -/
theorem run_nested {st : QuoteState} {x : List Char} {e e' : Nat}
    (h : depthAfter e st x = some e') (d n : Nat) :
    (running (d + e + 1) true n).run st x = running (d + e' + 1) true n := by
  induction x generalizing e st with
  | nil =>
      obtain rfl : e = e' := Option.some.inj h
      rfl
  | cons c x ih =>
      obtain ⟨f, hstep, hrest⟩ := Option.bind_eq_some_iff.1 h
      rw [run, step_nested hstep]
      exact ih hrest

/-- A group fills the argument that it stands in. -/
theorem run_group (t : Tally) {x : List Char} (hx : Balanced x) (tail : List Char) :
    t.run .outside ('(' :: (x ++ ')' :: tail)) = t.fill.run .outside tail := by
  cases t with
  | closed n => rw [run_closed, fill, run_closed]
  | running d filled n =>
      rw [run, punctuation_left, step, QuoteState.step_outside rfl, run_append, hx.closed,
        run_nested hx.depth]
      rfl

/-- The call is over where the depth is `e`, or at least open there. -/
def Below (e : Nat) : Tally → Prop
  | running d _ _ => d < e
  | closed _ => True

theorem Below.step {t : Tally} {e e' : Nat} (ht : t.Below e) {p : Punctuation}
    (h : depthStep e p = some e') : (t.step p).Below e' := by
  cases t with
  | closed n => trivial
  | running d filled n =>
      have hd : d < e := ht
      cases p with
      | right =>
          cases e with
          | zero => cases h
          | succ e =>
              obtain rfl : e = e' := Option.some.inj h
              cases d with
              | zero => trivial
              | succ d => exact Nat.lt_of_succ_lt_succ hd
      | left =>
          obtain rfl := Option.some.inj h
          exact Nat.succ_lt_succ hd
      | _ =>
          obtain rfl : e = e' := Option.some.inj h
          cases d <;> exact hd

theorem Below.run {t : Tally} {e e' : Nat} (ht : t.Below e) {st : QuoteState} {x : List Char}
    (h : depthAfter e st x = some e') : (t.run st x).Below e' := by
  induction x generalizing t e st with
  | nil =>
      obtain rfl : e = e' := Option.some.inj h
      exact ht
  | cons c x ih =>
      obtain ⟨f, hstep, hrest⟩ := Option.bind_eq_some_iff.1 h
      exact ih (ht.step hstep) hrest

theorem Below.run_eq_self {t : Tally} (h : t.Below 0) (st : QuoteState) (x : List Char) :
    t.run st x = t := by
  cases t with
  | running d filled n => exact absurd h (Nat.not_lt_zero d)
  | closed n => exact run_closed n st x

end Tally

/-! ### The number of arguments -/

/-- The number of arguments in some pieces: an empty last piece is none, unless something of its
argument stands before it. -/
def argumentCount (filled : Bool) : List (List Char) → Nat
  | [] => 0
  | [piece] => if filled || !piece.isEmpty then 1 else 0
  | _ :: piece :: rest => argumentCount false (piece :: rest) + 1

theorem argumentCount_prepend {ps : List (List Char)} (hps : ps ≠ []) (filled : Bool) (c : Char) :
    argumentCount filled (prepend c ps) = argumentCount true ps := by
  match ps, hps with
  | [piece], _ => simp [prepend, argumentCount]
  | _ :: _ :: _, _ => rfl

theorem argumentCount_nil_cons {ps : List (List Char)} (hps : ps ≠ []) (filled : Bool) :
    argumentCount filled ([] :: ps) = argumentCount false ps + 1 := by
  obtain ⟨piece, rest, rfl⟩ := List.exists_cons_of_ne_nil hps
  rfl

theorem length_argumentsOf (cs : List Char) :
    (argumentsOf cs).length = argumentCount false (pieces 0 .outside cs) := by
  have hlength : ∀ ps : List (List Char), ps ≠ [] →
      (if ps.getLast? = some [] then ps.dropLast else ps).length = argumentCount false ps := by
    intro ps hps
    induction ps with
    | nil => exact absurd rfl hps
    | cons piece ps ih =>
        cases ps with
        | nil => cases piece <;> simp [argumentCount]
        | cons next ps =>
            rw [argumentCount, ← ih (by simp), List.getLast?_cons_cons, List.dropLast_cons_cons]
            split <;> rfl
  exact hlength _ (pieces_ne_nil 0 .outside cs)

/-- The character belongs to an argument, of a call or of one within it, and the depth behind it is
`e`. -/
structure Within (d : Nat) (st : QuoteState) (c : Char) (e : Nat) : Prop where
  depth : depthStep d (punctuation st c) = some e
  comma : punctuation st c = .comma → d ≠ 0

/-- All other characters end an argument. -/
theorem within_or_ends (d : Nat) (st : QuoteState) (c : Char) :
    (∃ e, Within d st c e) ∨ (d = 0 ∧ st = .outside ∧ c = ',') ∨
      (d = 0 ∧ st = .outside ∧ c = ')') := by
  cases hp : punctuation st c with
  | left => exact .inl ⟨d + 1, by rw [hp]; rfl, by simp [hp]⟩
  | plain => exact .inl ⟨d, by rw [hp]; rfl, by simp [hp]⟩
  | right =>
      cases d with
      | zero => exact .inr (.inr ⟨rfl, punctuation_eq_right hp⟩)
      | succ d => exact .inl ⟨d, by rw [hp]; rfl, by simp⟩
  | comma =>
      cases d with
      | zero => exact .inr (.inl ⟨rfl, punctuation_eq_comma hp⟩)
      | succ d => exact .inl ⟨d + 1, by rw [hp]; rfl, by simp⟩

namespace Within

variable {d e : Nat} {st : QuoteState} {c : Char} (h : Within d st c e)
include h

theorem step (filled : Bool) (n : Nat) :
    (Tally.running d filled n).step (punctuation st c) = .running e true n := by
  obtain ⟨hdepth, hcomma⟩ := h
  cases hp : punctuation st c with
  | comma =>
      rw [hp] at hdepth
      obtain rfl : d = e := Option.some.inj hdepth
      cases d with
      | zero => exact absurd rfl (hcomma hp)
      | succ d => rfl
  | right =>
      rw [hp] at hdepth
      cases d with
      | zero => cases hdepth
      | succ d =>
          obtain rfl : d = e := Option.some.inj hdepth
          rfl
  | _ =>
      rw [hp] at hdepth
      obtain rfl := Option.some.inj hdepth
      rfl

theorem splitClose (rest : List Char) : splitClose (d + 1) st (c :: rest) =
    keep [c] (Formula.splitClose (e + 1) (st.step c) rest) := by
  obtain ⟨hdepth, -⟩ := h
  cases hp : punctuation st c with
  | left =>
      rw [hp] at hdepth
      obtain ⟨rfl, rfl⟩ := punctuation_eq_left hp
      obtain rfl := Option.some.inj hdepth
      exact splitClose_left _ _
  | right =>
      rw [hp] at hdepth
      obtain ⟨rfl, rfl⟩ := punctuation_eq_right hp
      cases d with
      | zero => cases hdepth
      | succ d =>
          obtain rfl : d = e := Option.some.inj hdepth
          exact splitClose_right _ _
  | _ =>
      rw [hp] at hdepth
      obtain rfl := Option.some.inj hdepth
      exact splitClose_char (fun hst => ne_of_punctuation hst (by simp [hp])) _ _

theorem pieces (rest : List Char) : pieces d st (c :: rest) =
    prepend c (Formula.pieces e (st.step c) rest) := by
  obtain ⟨hdepth, hcomma⟩ := h
  cases hp : punctuation st c with
  | left =>
      rw [hp] at hdepth
      obtain ⟨rfl, rfl⟩ := punctuation_eq_left hp
      obtain rfl := Option.some.inj hdepth
      exact pieces_left _ _
  | right =>
      rw [hp] at hdepth
      obtain ⟨rfl, rfl⟩ := punctuation_eq_right hp
      cases d with
      | zero => cases hdepth
      | succ d =>
          obtain rfl : d = e := Option.some.inj hdepth
          have hback : ((d + 1 : Nat) : Int) - 1 = d := by omega
          rw [pieces_right, hback]
          rfl
  | _ =>
      rw [hp] at hdepth
      obtain rfl := Option.some.inj hdepth
      refine pieces_char (fun hst => ne_of_punctuation hst (by simp [hp])) ?_ rest
      rintro rfl rfl
      have := hcomma rfl
      omega

end Within

theorem map_keep {α : Type} (c : Char) (found : Option (List Char × List Char))
    (f : List Char × List Char → α) :
    (keep [c] found).map f = found.map fun p => f (c :: p.1, p.2) := by
  cases found <;> rfl

/-- The count is over at the parenthesis that closes the call, with the number of its arguments. -/
theorem Tally.size?_run (d : Nat) (filled : Bool) (n : Nat) (st : QuoteState) (cs : List Char) :
    ((running d filled n).run st cs).size? = (splitClose (d + 1) st cs).map fun p =>
      n + argumentCount filled (pieces d st p.1) := by
  induction cs generalizing d filled n st with
  | nil => rfl
  | cons c cs ih =>
      rw [run]
      rcases within_or_ends d st c with ⟨e, hwithin⟩ | ⟨rfl, rfl, rfl⟩ | ⟨rfl, rfl, rfl⟩
      · rw [hwithin.step, ih, hwithin.splitClose, map_keep]
        refine congrArg (Option.map · _) (funext fun p => ?_)
        rw [hwithin.pieces, argumentCount_prepend (pieces_ne_nil _ _ _)]
      · rw [punctuation_comma, step, QuoteState.step_outside rfl, ih, splitClose_char (by simp),
          map_keep]
        refine congrArg (Option.map · _) (funext fun p => ?_)
        rw [Int.natCast_zero, pieces_comma, argumentCount_nil_cons (pieces_ne_nil _ _ _)]
        omega
      · rw [punctuation_right, step, run_closed, splitClose_last]
        cases filled <;> rfl

theorem Tally.size?_run_start (cs : List Char) : (start.run .outside cs).size? =
    (splitClose 1 .outside cs).map fun p => (argumentsOf p.1).length := by
  rw [start, size?_run]
  refine congrArg (Option.map · _) (funext fun p => ?_)
  rw [length_argumentsOf, Nat.zero_add]
  rfl

theorem depthAfter_of_splitClose {d : Nat} {st : QuoteState} {cs inner rest : List Char}
    (h : splitClose (d + 1) st cs = some (inner, rest)) : depthAfter d st inner = some 0 := by
  induction cs generalizing d st inner with
  | nil => simp [splitClose] at h
  | cons c cs ih =>
      -- Every character but the last parenthesis is kept.
      have hkeep : ∀ e, depthStep d (punctuation st c) = some e →
          keep [c] (splitClose (e + 1) (st.step c) cs) = some (inner, rest) →
          depthAfter d st inner = some 0 := by
        intro e hstep h
        obtain ⟨⟨before, after⟩, hfound, hpair⟩ := Option.map_eq_some_iff.1 h
        obtain ⟨rfl, rfl⟩ := Prod.mk.inj hpair
        rw [List.singleton_append, depthAfter, hstep]
        exact ih hfound
      rcases within_or_ends d st c with ⟨e, hwithin⟩ | ⟨rfl, rfl, rfl⟩ | ⟨rfl, rfl, rfl⟩
      · rw [hwithin.splitClose] at h
        exact hkeep e hwithin.depth h
      · rw [splitClose_char (by simp)] at h
        exact hkeep 0 rfl h
      · rw [splitClose_last] at h
        cases h
        rfl

theorem balanced_of_splitClose {cs inner rest : List Char}
    (h : splitClose 1 .outside cs = some (inner, rest)) : Balanced inner :=
  ⟨(splitClose_eq_some h).2, depthAfter_of_splitClose h⟩

/-- The pieces of a balanced text are balanced. The first one goes on from the depth at hand. -/
theorem balanced_pieces {d : Nat} {st : QuoteState} {cs : List Char}
    (hrun : st.run cs = .outside) (hdepth : depthAfter d st cs = some 0) :
    ∃ first rest, pieces d st cs = first :: rest ∧ st.run first = .outside ∧
      depthAfter d st first = some 0 ∧ ∀ piece ∈ rest, Balanced piece := by
  induction cs generalizing d st with
  | nil => exact ⟨[], [], rfl, hrun, hdepth, List.forall_mem_nil _⟩
  | cons c cs ih =>
      obtain ⟨e, hstep, hrest⟩ := Option.bind_eq_some_iff.1 hdepth
      obtain ⟨first, rest, hpieces, hfirst, hd, hbalanced⟩ := ih hrun hrest
      rcases within_or_ends d st c with ⟨f, hwithin⟩ | ⟨rfl, rfl, rfl⟩ | ⟨rfl, rfl, rfl⟩
      · obtain rfl : f = e := Option.some.inj (hwithin.depth.symm.trans hstep)
        rw [hwithin.pieces, hpieces]
        refine ⟨c :: first, rest, rfl, hfirst, ?_, hbalanced⟩
        rw [depthAfter, hstep]
        exact hd
      · obtain rfl : 0 = e := Option.some.inj hstep
        refine ⟨[], first :: rest, ?_, rfl, rfl, ?_⟩
        · rw [Int.natCast_zero, pieces_comma]
          exact congrArg _ hpieces
        · exact List.forall_mem_cons.2 ⟨⟨hfirst, hd⟩, hbalanced⟩
      · cases hstep

theorem Balanced.pieces {x : List Char} (h : Balanced x) :
    ∀ piece ∈ pieces 0 .outside x, Balanced piece := by
  obtain ⟨first, rest, hpieces, hrun, hdepth, hrest⟩ := balanced_pieces h.closed h.depth
  rw [← Int.natCast_zero, hpieces]
  exact List.forall_mem_cons.2 ⟨⟨hrun, hdepth⟩, hrest⟩

theorem Balanced.argumentsOf {x : List Char} (h : Balanced x) :
    ∀ a ∈ argumentsOf x, Balanced a := by
  unfold Formula.argumentsOf
  dsimp only
  split
  · exact fun a ha => h.pieces a (List.dropLast_subset _ ha)
  · exact h.pieces

end SheetBoard.Formula
