import SheetBoard.Proofs.Script.Lexemes

/-! What a reader takes. It is the front of the tokens and never empty, and its brackets are nested:
every one that it opens it also closes, in the right order and by the right one. -/

namespace SheetBoard.Script

/-- Brackets in pairs, each pair around such brackets again. -/
inductive WellNested : List Char → Prop where
  | nil : WellNested []
  | pair {left right : Char} {inner rest : List Char} :
      (left, right) ∈ [('(', ')'), ('[', ']')] → WellNested inner → WellNested rest →
      WellNested (left :: (inner ++ right :: rest))

theorem WellNested.append {x y : List Char} (hx : WellNested x) (hy : WellNested y) :
    WellNested (x ++ y) := by
  induction hx with
  | nil => exact hy
  | pair hmem hinner _ _ ih =>
      rw [List.cons_append, List.append_assoc]
      exact .pair hmem hinner ih

/-- The brackets of the tokens are nested. -/
def Encloses (ts : List Token) : Prop := WellNested (bracketsOf ts)

namespace Encloses

variable {ts us : List Token}

theorem nil : Encloses [] := WellNested.nil

theorem append (hts : Encloses ts) (hus : Encloses us) : Encloses (ts ++ us) := by
  unfold Encloses
  rw [bracketsOf_append]
  exact WellNested.append hts hus

theorem cons {t : Token} (ht : t.bracket? = none) (h : Encloses ts) : Encloses (t :: ts) := by
  unfold Encloses
  rw [bracketsOf_cons, ht]
  exact h

theorem pair {left right : Token} {l r : Char} (hleft : left.bracket? = some l)
    (hright : right.bracket? = some r) (hmem : (l, r) ∈ [('(', ')'), ('[', ']')])
    (h : Encloses ts) : Encloses (left :: (ts ++ [right])) := by
  unfold Encloses
  rw [bracketsOf_cons, bracketsOf_append, bracketsOf_cons, hleft, hright]
  exact .pair hmem h .nil

end Encloses

theorem bracket?_of_operator? {l : Level} {t : Token} {op : BinaryOp}
    (h : l.operator? t = some op) : t.bracket? = none := by
  cases t with
  | leftParen | rightParen | leftBracket | rightBracket => cases l <;> cases h
  | _ => rfl

theorem bracket?_of_sign? {t : Token} {op : UnaryOp} (h : sign? t = some op) :
    t.bracket? = none := by
  cases t with
  | leftParen | rightParen | leftBracket | rightBracket => cases h
  | _ => rfl

/-- What the reader of a goal may take: the brackets in it are nested, up to the one that closes the
items of a list, and only further operators may be missing. -/
def Goal.Takes : Goal → List Token → Prop
  | .operators _ _, used => Encloses used
  | .items close, used => ∃ inner, used = inner ++ [close] ∧ Encloses inner
  | .more close, used => ∃ inner, used = inner ++ [close] ∧ Encloses inner
  | _, used => used ≠ [] ∧ Encloses used

theorem Level.takes_operand {l : Level} {used : List Token} (h : l.operand.Takes used) :
    used ≠ [] ∧ Encloses used := by
  cases l <;> exact h

theorem Derivation.takes {goal : Goal} {ts rest : List Token} {found : Found}
    (h : Derivation goal ts found rest) : ∃ used, ts = used ++ rest ∧ goal.Takes used := by
  induction h with
  | plain _ _ _ ih => exact ih
  | chosen _ _ _ ihyes ihcondition ihno =>
      obtain ⟨yes, rfl, hyes, hyes'⟩ := ihyes
      obtain ⟨condition, rfl, -, hcondition⟩ := ihcondition
      obtain ⟨no, rfl, -, hno⟩ := ihno
      refine ⟨yes ++ (.name "if" :: (condition ++ .name "else" :: no)), by simp, by simp, ?_⟩
      exact hyes'.append (.cons rfl (hcondition.append (.cons rfl hno)))
  | ternary _ _ _ ihcondition ihyes ihno =>
      obtain ⟨condition, rfl, hcondition, hcondition'⟩ := ihcondition
      obtain ⟨yes, rfl, -, hyes⟩ := ihyes
      obtain ⟨no, rfl, -, hno⟩ := ihno
      refine ⟨condition ++ (.question :: (yes ++ .colon :: no)), by simp, by simp, ?_⟩
      exact hcondition'.append (.cons rfl (hyes.append (.cons rfl hno)))
  | level _ _ ihleft ihrest =>
      obtain ⟨left, rfl, hleft⟩ := ihleft
      obtain ⟨more, rfl, hmore⟩ := ihrest
      obtain ⟨hne, hleft⟩ := Level.takes_operand hleft
      exact ⟨left ++ more, by simp, by simp [hne], hleft.append hmore⟩
  | stop => exact ⟨[], rfl, .nil⟩
  | operator hop _ _ ihright ihrest =>
      obtain ⟨right, rfl, hright⟩ := ihright
      obtain ⟨more, rfl, hmore⟩ := ihrest
      exact ⟨_ :: (right ++ more), by simp,
        .cons (bracket?_of_operator? hop) ((Level.takes_operand hright).2.append hmore)⟩
  | not _ ih =>
      obtain ⟨used, rfl, -, hused⟩ := ih
      exact ⟨_ :: used, rfl, by simp, .cons rfl hused⟩
  | comparison _ _ ih => exact ih
  | sign hsign _ ih =>
      obtain ⟨used, rfl, -, hused⟩ := ih
      exact ⟨_ :: used, rfl, by simp, .cons (bracket?_of_sign? hsign) hused⟩
  | unsigned _ _ ih => exact ih
  | @number x rest => exact ⟨[.number x], rfl, by simp, .cons rfl .nil⟩
  | @text s rest => exact ⟨[.text s], rfl, by simp, .cons rfl .nil⟩
  | paren _ ih =>
      obtain ⟨used, rfl, -, hused⟩ := ih
      exact ⟨.leftParen :: (used ++ [.rightParen]), by simp, by simp,
        .pair rfl rfl (by simp) hused⟩
  | array _ ih =>
      obtain ⟨used, rfl, inner, rfl, hinner⟩ := ih
      exact ⟨.leftBracket :: (inner ++ [.rightBracket]), by simp, by simp,
        .pair rfl rfl (by simp) hinner⟩
  | @call n ts rest es _ ih =>
      obtain ⟨used, rfl, inner, rfl, hinner⟩ := ih
      exact ⟨.name n :: .leftParen :: (inner ++ [.rightParen]), by simp, by simp,
        .cons rfl (.pair rfl rfl (by simp) hinner)⟩
  | @word n rest _ => exact ⟨[.name n], rfl, by simp, .cons rfl .nil⟩
  | @noItems close rest => exact ⟨[close], rfl, [], rfl, .nil⟩
  | @items close _ _ _ _ _ _ _ _ ihfirst ihmore =>
      obtain ⟨first, rfl, -, hfirst⟩ := ihfirst
      obtain ⟨used, rfl, inner, rfl, hinner⟩ := ihmore
      exact ⟨first ++ (inner ++ [close]), by simp, first ++ inner, by simp, hfirst.append hinner⟩
  | @close close rest _ => exact ⟨[close], rfl, [], rfl, .nil⟩
  | @next close _ _ _ _ _ _ _ ihitem ihmore =>
      obtain ⟨item, rfl, -, hitem⟩ := ihitem
      obtain ⟨used, rfl, inner, rfl, hinner⟩ := ihmore
      exact ⟨.comma :: (item ++ (inner ++ [close])), by simp, .comma :: (item ++ inner), by simp,
        .cons rfl (hitem.append hinner)⟩

end SheetBoard.Script
