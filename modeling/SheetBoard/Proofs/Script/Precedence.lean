import SheetBoard.Proofs.Script.Derivation

/-! The forms of scripts in the order of precedence. Tokens that are read as one form are read as
every looser one, up to a token that goes on with it; each form is put together from operands that
are as tight as the table asks. -/

namespace SheetBoard.Script

/-! ### The table -/

/-- The forms of scripts, from the loosest to the tightest. -/
inductive Form where
  | conditional
  | binary (level : Level)
  | negation
  | sign
  | value
  deriving DecidableEq

namespace Form

/-- The place in the table, where tighter forms are higher. -/
def rank : Form → Nat
  | .conditional => 0
  | .binary .or => 1
  | .binary .and => 2
  | .negation => 3
  | .binary .comparison => 4
  | .binary .sum => 5
  | .binary .product => 6
  | .sign => 7
  | .value => 8

@[simp] def goal : Form → Goal
  | .conditional => .conditional
  | .binary l => .level l
  | .negation => .negation
  | .sign => .signed
  | .value => .value

/-- The form one place below, if there is one. -/
def looser : Form → Form
  | .conditional => .conditional
  | .binary .or => .conditional
  | .binary .and => .binary .or
  | .negation => .binary .and
  | .binary .comparison => .negation
  | .binary .sum => .binary .comparison
  | .binary .product => .binary .sum
  | .sign => .binary .product
  | .value => .sign

theorem rank_looser (p : Form) : p.looser.rank = p.rank - 1 := by
  cases p with
  | binary l => cases l <;> rfl
  | _ => rfl

/-- The forms by their places. -/
def table : List Form :=
  [.conditional, .binary .or, .binary .and, .negation, .binary .comparison, .binary .sum,
    .binary .product, .sign, .value]

theorem getElem?_rank (p : Form) : table[p.rank]? = some p := by
  cases p with
  | binary l => cases l <;> rfl
  | _ => rfl

theorem eq_of_rank_eq {p q : Form} (h : p.rank = q.rank) : p = q := by
  have hp := getElem?_rank p
  rw [h, getElem?_rank q] at hp
  exact (Option.some.inj hp).symm

end Form

/-- The form of a level's right operands: the next tighter one. -/
def Level.tighter : Level → Form
  | .or => .binary .and
  | .and => .negation
  | .comparison => .binary .sum
  | .sum => .binary .product
  | .product => .sign

theorem Level.operand_eq (l : Level) : l.operand = l.tighter.goal := by cases l <;> rfl

theorem Level.rank_tighter (l : Level) : l.tighter.rank = (Form.binary l).rank + 1 := by
  cases l <;> rfl

/-! ### Tokens that go on -/

/-- The form with which a token goes on after a value. -/
def Token.continues? : Token → Option Form
  | .question => some .conditional
  | .name n =>
    if n = "if" then some .conditional
    else if n = "or" then some (.binary .or)
    else if n = "and" then some (.binary .and)
    else none
  | .orOr => some (.binary .or)
  | .andAnd => some (.binary .and)
  | .equal | .notEqual | .less | .lessEqual | .greater | .greaterEqual =>
    some (.binary .comparison)
  | .plus | .minus | .ampersand => some (.binary .sum)
  | .star | .slash | .percent => some (.binary .product)
  | .leftParen => some .value
  | _ => none

theorem continues?_of_operator? {l : Level} {t : Token} {op : BinaryOp}
    (h : l.operator? t = some op) : t.continues? = some (.binary l) := by
  cases l <;> cases t <;> simp_all [Level.operator?, Token.continues?]

/-- The tokens go on with looser forms at most, so that the form `p` ends before them. -/
def Stops (p : Form) (rest : List Token) : Prop :=
  ∀ t ∈ rest.head?, ∀ q, t.continues? = some q → q.rank < p.rank

namespace Stops

variable {p q : Form} {rest : List Token}

theorem mono (h : Stops p rest) (hle : p.rank ≤ q.rank) : Stops q rest :=
  fun t ht r hr => Nat.lt_of_lt_of_le (h t ht r hr) hle

theorem of_continues? {t : Token} (h : t.continues? = some q) (hlt : q.rank < p.rank) :
    Stops p (t :: rest) := by
  intro s hs r hr
  obtain rfl : t = s := Option.some.inj hs
  obtain rfl : q = r := Option.some.inj (h.symm.trans hr)
  exact hlt

theorem of_continues?_eq_none {t : Token} (h : t.continues? = none) : Stops p (t :: rest) := by
  intro s hs r hr
  obtain rfl : t = s := Option.some.inj hs
  rw [h] at hr
  cases hr

theorem operator? {l : Level} (h : Stops (.binary l) rest) :
    rest.head?.bind l.operator? = none := by
  cases hhead : rest.head? with
  | none => rfl
  | some t =>
      cases hop : l.operator? t with
      | none => exact hop
      | some op => exact absurd (h t hhead _ (continues?_of_operator? hop)) (Nat.lt_irrefl _)

theorem head?_ne {t : Token} (h : Stops p rest) (ht : t.continues? = some p) :
    rest.head? ≠ some t := fun hhead => Nat.lt_irrefl _ (h t hhead p ht)

end Stops

/-! ### Reading a form -/

/-- The tokens are read as a form. For the operands of a level the operators behind them count:
whatever they give with `e` on their left is read. -/
def Form.Derives : Form → List Token → Expr → Prop
  | .binary l, ts, e => ∀ rest result last, Stops l.tighter rest →
      Derivation (.operators l e) rest (.expr result) last →
      Derivation (.level l) (ts ++ rest) (.expr result) last
  | p, ts, e => ∀ rest, Stops p rest → Derivation p.goal (ts ++ rest) (.expr e) rest

/-- The tokens that end a list of items. -/
def closing : List Token := [.rightParen, .rightBracket]

/-- The tokens are read as a form, and no looser form takes their first one for its own. -/
structure Parses (p : Form) (ts : List Token) (e : Expr) : Prop where
  starts : ∃ t tail, ts = t :: tail ∧ t ≠ .name "not" ∧ t ∉ closing
  unsigned : p = .value → ts.head?.bind sign? = none
  derives : p.Derives ts e

namespace Parses

variable {p q : Form} {l : Level} {ts us vs rest : List Token} {e a b : Expr}

theorem starts_append (h : Parses p ts e) (us : List Token) :
    ∃ t tail, ts ++ us = t :: tail ∧ t ≠ .name "not" ∧ t ∉ closing := by
  obtain ⟨t, tail, rfl, hnot, hclosing⟩ := h.starts
  exact ⟨t, tail ++ us, rfl, hnot, hclosing⟩

theorem derivation (h : Parses p ts e) (hrest : Stops p rest) :
    Derivation p.goal (ts ++ rest) (.expr e) rest := by
  have hderives := h.derives
  cases p with
  | binary l =>
      have hle : (Form.binary l).rank ≤ l.tighter.rank := by
        rw [l.rank_tighter]
        omega
      exact hderives rest e rest (hrest.mono hle) (.stop hrest.operator?)
  | _ => exact hderives rest hrest

/-! ### Looser forms -/

theorem level (h : Parses l.tighter ts e) : Parses (.binary l) ts e where
  starts := h.starts
  unsigned := nofun
  derives rest _ _ hrest hoperators := by
    refine .level ?_ hoperators
    rw [l.operand_eq]
    exact h.derivation hrest

theorem looser (h : Parses p ts e) : Parses p.looser ts e := by
  cases p with
  | conditional => exact h
  | binary l =>
      cases l with
      | or =>
          refine ⟨h.starts, nofun, fun rest hrest => ?_⟩
          exact .plain (h.derivation (hrest.mono (Nat.zero_le _))) (hrest.head?_ne rfl)
            (hrest.head?_ne rfl)
      | and => exact level (l := .or) h
      | comparison =>
          refine ⟨h.starts, nofun, fun rest hrest => ?_⟩
          obtain ⟨t, tail, htail, hnot, -⟩ := h.starts_append rest
          exact .comparison (by simpa [htail] using hnot)
            (h.derivation (hrest.mono (by decide)))
      | sum => exact level (l := .comparison) h
      | product => exact level (l := .sum) h
  | negation => exact level (l := .and) h
  | sign => exact level (l := .product) h
  | value =>
      refine ⟨h.starts, nofun, fun rest hrest => ?_⟩
      have hunsigned : (ts ++ rest).head?.bind sign? = none := by
        obtain ⟨t, tail, rfl, -⟩ := h.starts
        exact h.unsigned rfl
      exact .unsigned hunsigned (h.derivation (hrest.mono (by decide)))

/-- What is tight enough for a form is read as that form. -/
theorem loosen (h : Parses p ts e) (hle : q.rank ≤ p.rank) : Parses q ts e := by
  generalize hn : p.rank - q.rank = n
  induction n generalizing p with
  | zero =>
      obtain rfl : p = q := Form.eq_of_rank_eq (by omega)
      exact h
  | succ n ih =>
      have hrank := p.rank_looser
      exact ih h.looser (by omega) (by omega)

/-! ### Putting forms together -/

theorem binary {t : Token} {op : BinaryOp} (ht : l.operator? t = some op)
    (hleft : Parses (.binary l) ts a) (hright : Parses l.tighter us b) :
    Parses (.binary l) (ts ++ t :: us) (.binary op a b) where
  starts := hleft.starts_append _
  unsigned := nofun
  derives rest result last hrest hoperators := by
    have hlt : (Form.binary l).rank < l.tighter.rank := by
      rw [l.rank_tighter]
      omega
    have hoperand : Derivation l.operand (us ++ rest) (.expr b) rest := by
      rw [l.operand_eq]
      exact hright.derivation hrest
    rw [List.append_assoc, List.cons_append]
    exact hleft.derives _ result last (.of_continues? (continues?_of_operator? ht) hlt)
      (.operator ht hoperand hoperators)

theorem sign {t : Token} {op : UnaryOp} (ht : sign? t = some op) (h : Parses .sign ts e) :
    Parses .sign (t :: ts) (.unary op e) where
  starts := by
    refine ⟨t, ts, rfl, ?_, ?_⟩
    · rintro rfl
      cases ht
    · intro hclosing
      simp only [closing, List.mem_cons, List.not_mem_nil, or_false] at hclosing
      rcases hclosing with rfl | rfl <;> cases ht
  unsigned := nofun
  derives _ hrest := .sign ht (h.derivation hrest)

/-- The condition stands in the middle. -/
theorem chosen {condition yes no : Expr} (hyes : Parses (.binary .or) ts yes)
    (hcondition : Parses (.binary .or) us condition) (hno : Parses .conditional vs no) :
    Parses .conditional (ts ++ .name "if" :: (us ++ .name "else" :: vs))
      (.conditional condition yes no) where
  starts := hyes.starts_append _
  unsigned := nofun
  derives rest hrest := by
    have hif : Derivation (.level .or) (ts ++ .name "if" :: (us ++ .name "else" :: (vs ++ rest)))
        (.expr yes) (.name "if" :: (us ++ .name "else" :: (vs ++ rest))) :=
      hyes.derivation (.of_continues? (q := .conditional) rfl (by decide))
    have helse : Derivation (.level .or) (us ++ .name "else" :: (vs ++ rest)) (.expr condition)
        (.name "else" :: (vs ++ rest)) :=
      hcondition.derivation (.of_continues?_eq_none rfl)
    simpa using Derivation.chosen hif helse (hno.derivation hrest)

/-- The condition stands in front. -/
theorem ternary {condition yes no : Expr} (hcondition : Parses (.binary .or) ts condition)
    (hyes : Parses .conditional us yes) (hno : Parses .conditional vs no) :
    Parses .conditional (ts ++ .question :: (us ++ .colon :: vs))
      (.conditional condition yes no) where
  starts := hcondition.starts_append _
  unsigned := nofun
  derives rest hrest := by
    have hmark : Derivation (.level .or) (ts ++ .question :: (us ++ .colon :: (vs ++ rest)))
        (.expr condition) (.question :: (us ++ .colon :: (vs ++ rest))) :=
      hcondition.derivation (.of_continues? (q := .conditional) rfl (by decide))
    have hcolon : Derivation .conditional (us ++ .colon :: (vs ++ rest)) (.expr yes)
        (.colon :: (vs ++ rest)) :=
      hyes.derivation (.of_continues?_eq_none rfl)
    simpa using Derivation.ternary hmark hcolon (hno.derivation hrest)

theorem enclosed (h : Parses .conditional ts e) :
    Parses .value (.leftParen :: ts ++ [.rightParen]) e where
  starts := ⟨_, _, rfl, by simp, by simp [closing]⟩
  unsigned _ := rfl
  derives rest _ := by
    have hinner : Derivation .conditional (ts ++ .rightParen :: rest) (.expr e)
        (.rightParen :: rest) := h.derivation (.of_continues?_eq_none rfl)
    simpa using Derivation.paren hinner

theorem number (x : Float) : Parses .value [.number x] (.number x) :=
  ⟨⟨_, _, rfl, by simp, by simp [closing]⟩, fun _ => rfl, fun _ _ => .number⟩

theorem text (s : String) : Parses .value [.text s] (.text s) :=
  ⟨⟨_, _, rfl, by simp, by simp [closing]⟩, fun _ => rfl, fun _ _ => .text⟩

theorem word {n : String} (hn : n ≠ "not") : Parses .value [.name n] (wordValue n) :=
  ⟨⟨_, _, rfl, by simpa using hn, by simp [closing]⟩, fun _ => rfl,
    fun _ hrest => .word (hrest.head?_ne rfl)⟩

end Parses

/-! ### Items -/

/-- The tokens are read as items up to a closing token, whichever it is. -/
def ParsesItems (ts : List Token) (es : List Expr) : Prop :=
  ∀ close ∈ closing, ∀ rest, Derivation (.items close) (ts ++ close :: rest) (.items es) rest

/-- The tokens are read as further items up to a closing token, and an item ends before them. -/
structure ParsesMore (ts : List Token) (es : List Expr) : Prop where
  stops : ∀ close ∈ closing, ∀ rest, Stops .conditional (ts ++ close :: rest)
  derivation : ∀ close ∈ closing, ∀ rest,
    Derivation (.more close) (ts ++ close :: rest) (.items es) rest

section

variable {ts us : List Token} {e : Expr} {es : List Expr} {n : String}

theorem continues?_closing {t : Token} (h : t ∈ closing) : t.continues? = none := by
  simp only [closing, List.mem_cons, List.not_mem_nil, or_false] at h
  rcases h with rfl | rfl <;> rfl

theorem ParsesMore.nil : ParsesMore [] [] where
  stops _ hclose _ := .of_continues?_eq_none (continues?_closing hclose)
  derivation close hclose _ := by
    refine .close ?_
    rintro rfl
    simp [closing] at hclose

theorem ParsesMore.cons (h : Parses .conditional ts e) (hmore : ParsesMore us es) :
    ParsesMore (.comma :: (ts ++ us)) (e :: es) where
  stops _ _ _ := .of_continues?_eq_none rfl
  derivation close hclose rest := by
    have hitem := h.derivation (hmore.stops close hclose rest)
    rw [← List.append_assoc] at hitem
    exact .next hitem (hmore.derivation close hclose rest)

theorem ParsesItems.nil : ParsesItems [] [] := fun _ _ _ => .noItems

theorem ParsesItems.cons (h : Parses .conditional ts e) (hmore : ParsesMore us es) :
    ParsesItems (ts ++ us) (e :: es) := by
  intro close hclose rest
  have hitem := h.derivation (hmore.stops close hclose rest)
  have hhead : (ts ++ (us ++ close :: rest)).head? ≠ some close := by
    obtain ⟨t, tail, htail, -, hclosing⟩ := h.starts_append (us ++ close :: rest)
    rw [htail]
    rintro heq
    exact hclosing (Option.some.inj heq ▸ hclose)
  rw [List.append_assoc]
  exact .items hhead hitem (hmore.derivation close hclose rest)

theorem Parses.array (h : ParsesItems ts es) :
    Parses .value (.leftBracket :: ts ++ [.rightBracket]) (.array es) where
  starts := ⟨_, _, rfl, by simp, by simp [closing]⟩
  unsigned _ := rfl
  derives rest _ := by simpa using Derivation.array (h .rightBracket (by simp [closing]) rest)

theorem Parses.call (hn : n ≠ "not") (h : ParsesItems ts es) :
    Parses .value (.name n :: .leftParen :: ts ++ [.rightParen]) (.call n es) where
  starts := ⟨_, _, rfl, by simpa using hn, by simp [closing]⟩
  unsigned _ := rfl
  derives rest _ := by simpa using Derivation.call (h .rightParen (by simp [closing]) rest)

end

end SheetBoard.Script
