import SheetBoard.Proofs.Script.Precedence
import SheetBoard.Proofs.Script.Scanning

/-! Writing expressions as scripts, with parentheses only where the table of precedence asks for
them. Whatever spellings are chosen, the script is read as the expression. -/

namespace SheetBoard.Script

open Formula (quote escape)

/-! ### Spellings -/

/-- Logical operators are words (`and`, `or`) or signs (`&&`, `||`), and so are conditionals
(`a if c else b`, `c ? a : b`). -/
inductive Spelling where
  | words
  | signs
  deriving DecidableEq

/-- How one expression is spelled, its parts apart. -/
structure Style where
  logical : Spelling
  conditional : Spelling
  /-- Which of the three words of a truth value, or of no value, is taken. -/
  literal : Fin 3
  /-- The numeral of a number. -/
  numeral : Number.Numeral

def truthWord (i : Fin 3) : Bool → String
  | true => ["True", "true", "TRUE"].get i
  | false => ["False", "false", "FALSE"].get i

def nothingWord (i : Fin 3) : String := ["None", "null", "undefined"].get i

/-- How an expression and its parts are spelled. The parts of each expression are counted, and a
part is found by the counts on the way to it. -/
def Styles := List Nat → Style

namespace Styles

def top (styles : Styles) : Style := styles []

def part (styles : Styles) (i : Nat) : Styles := fun path => styles (i :: path)

end Styles

namespace BinaryOp

def level : BinaryOp → Level
  | .or => .or
  | .and => .and
  | .equal | .notEqual | .less | .lessEqual | .greater | .greaterEqual => .comparison
  | .add | .subtract | .concat => .sum
  | .multiply | .divide | .modulo => .product

def text (s : Spelling) : BinaryOp → List Char
  | .add => ['+']
  | .subtract => ['-']
  | .multiply => ['*']
  | .divide => ['/']
  | .modulo => ['%']
  | .concat => ['&']
  | .equal => ['=', '=']
  | .notEqual => ['!', '=']
  | .less => ['<']
  | .lessEqual => ['<', '=']
  | .greater => ['>']
  | .greaterEqual => ['>', '=']
  | .and => match s with
    | .words => ['a', 'n', 'd']
    | .signs => ['&', '&']
  | .or => match s with
    | .words => ['o', 'r']
    | .signs => ['|', '|']

def token (s : Spelling) : BinaryOp → Token
  | .add => .plus
  | .subtract => .minus
  | .multiply => .star
  | .divide => .slash
  | .modulo => .percent
  | .concat => .ampersand
  | .equal => .equal
  | .notEqual => .notEqual
  | .less => .less
  | .lessEqual => .lessEqual
  | .greater => .greater
  | .greaterEqual => .greaterEqual
  | .and => match s with
    | .words => .name "and"
    | .signs => .andAnd
  | .or => match s with
    | .words => .name "or"
    | .signs => .orOr

theorem level_operator? (s : Spelling) (op : BinaryOp) :
    op.level.operator? (op.token s) = some op := by
  cases s <;> cases op <;> rfl

end BinaryOp

namespace UnaryOp

def mark : UnaryOp → Char
  | .negate => '-'
  | .plus => '+'
  | .not => '!'

def token : UnaryOp → Token
  | .negate => .minus
  | .plus => .plus
  | .not => .bang

end UnaryOp

/-! ### Writing -/

/-- The form in the table of precedence. A negation is written as a sign. -/
def Expr.form : Expr → Form
  | .conditional _ _ _ => .conditional
  | .binary op _ _ => .binary op.level
  | .unary _ _ => .sign
  | _ => .value

/-- The text of an expression, in parentheses if it is not as tight as the form. -/
def group (p : Form) (e : Expr) (x : List Char) : List Char :=
  if e.form.rank < p.rank then '(' :: x ++ [')'] else x

/-- Two texts with a word and single blanks between them. -/
def spaced (x word y : List Char) : List Char := x ++ ' ' :: (word ++ ' ' :: y)

mutual

def render (styles : Styles) : Expr → List Char
  | .number _ => styles.top.numeral.text
  | .text s => quote s.toList
  | .boolean b => (truthWord styles.top.literal b).toList
  | .null => (nothingWord styles.top.literal).toList
  | .array items => '[' :: renderItems styles 0 items ++ [']']
  | .name n => n.toList
  | .binary op left right =>
    spaced (group (.binary op.level) left (render (styles.part 0) left))
      (op.text styles.top.logical)
      (group op.level.tighter right (render (styles.part 1) right))
  | .unary op operand => op.mark :: group .sign operand (render (styles.part 0) operand)
  | .conditional condition yes no =>
    match styles.top.conditional with
    | .words =>
      spaced (group (.binary .or) yes (render (styles.part 1) yes)) ['i', 'f']
        (spaced (group (.binary .or) condition (render (styles.part 0) condition))
            ['e', 'l', 's', 'e']
          (render (styles.part 2) no))
    | .signs =>
      spaced (group (.binary .or) condition (render (styles.part 0) condition)) ['?']
        (spaced (render (styles.part 1) yes) [':'] (render (styles.part 2) no))
  | .call function arguments => function.toList ++ '(' :: renderItems styles 0 arguments ++ [')']

/-- Items, the first of which is the part with number `i`. -/
def renderItems (styles : Styles) (i : Nat) : List Expr → List Char
  | [] => []
  | e :: es => render (styles.part i) e ++ renderMore styles (i + 1) es

/-- Further items, each after a comma and a blank. -/
def renderMore (styles : Styles) (i : Nat) : List Expr → List Char
  | [] => []
  | e :: es => ',' :: ' ' :: (render (styles.part i) e ++ renderMore styles (i + 1) es)

end

/-- Names with a meaning of their own. -/
def scriptWords : List String :=
  ["if", "else", "and", "or", "not", "True", "true", "TRUE", "False", "false", "FALSE", "None",
    "null", "undefined"]

/-- A text that is scanned as a name and means nothing else. -/
structure IsNameable (n : String) : Prop where
  word : IsWord n.toList
  free : n ∉ scriptWords

instance (n : String) : Decidable (IsNameable n) :=
  decidable_of_iff (IsWord n.toList ∧ n ∉ scriptWords)
    ⟨fun h => ⟨h.1, h.2⟩, fun h => ⟨h.word, h.free⟩⟩

mutual

/-- The numbers are those of the chosen numerals, and the names can be used as names. -/
def Legible (styles : Styles) : Expr → Prop
  | .number x => styles.top.numeral.value = x
  | .text _ => True
  | .boolean _ => True
  | .null => True
  | .array items => LegibleItems styles 0 items
  | .name n => IsNameable n
  | .binary _ left right => Legible (styles.part 0) left ∧ Legible (styles.part 1) right
  | .unary _ operand => Legible (styles.part 0) operand
  | .conditional condition yes no =>
    Legible (styles.part 0) condition ∧ Legible (styles.part 1) yes ∧ Legible (styles.part 2) no
  | .call function arguments => IsNameable function ∧ LegibleItems styles 0 arguments

def LegibleItems (styles : Styles) (i : Nat) : List Expr → Prop
  | [] => True
  | e :: es => Legible (styles.part i) e ∧ LegibleItems styles (i + 1) es

end

/-! ### Scanning -/

/-- What may follow a written expression. -/
def Delimits (rest : List Char) : Prop := ∀ c ∈ rest.head?, c ∈ [' ', ')', ',', ']']

theorem Delimits.any {rest : List Char} (h : Delimits rest) {q : Char → Bool}
    (hq : ∀ c ∈ [' ', ')', ',', ']'], q c = false) : rest.head?.any q = false := by
  cases hhead : rest.head? with
  | none => rfl
  | some c => exact hq c (h c hhead)

theorem Delimits.head?_ne {rest : List Char} (h : Delimits rest) {c : Char}
    (hc : c ∉ [' ', ')', ',', ']']) : rest.head? ≠ some c := fun hhead => hc (h c hhead)

/-- The text is scanned into the tokens, whatever follows it. -/
def Scanned (x : List Char) (ts : List Token) : Prop := ∀ rest, Delimits rest → Scans x ts rest

theorem delimits_cons {c : Char} (h : c ∈ [' ', ')', ',', ']']) (rest : List Char) :
    Delimits (c :: rest) := by
  intro d hd
  rwa [← Option.some.inj hd]

/-- A word or a sign with a blank behind it. -/
theorem scans_spelled {c : Char} {x rest : List Char} {t : Token}
    (h : lex c (x ++ ' ' :: rest) = (t, ' ' :: rest)) (hblank : Text.isBlank c = false) :
    Scans (c :: x) [t] (' ' :: rest) := scans_of_lex hblank h

theorem BinaryOp.scans_text (s : Spelling) (op : BinaryOp) (rest : List Char) :
    Scans (op.text s) [op.token s] (' ' :: rest) := by
  cases op with
  | and => cases s <;> exact scans_spelled rfl (by decide)
  | or => cases s <;> exact scans_spelled rfl (by decide)
  | _ => exact scans_spelled rfl (by decide)

theorem UnaryOp.scans_mark (op : UnaryOp) {rest : List Char} (h : rest.head? ≠ some '=') :
    Scans [op.mark] [op.token] rest := by
  cases op with
  | negate => exact scans_single (by decide) (by decide) rfl rest
  | plus => exact scans_single (by decide) (by decide) rfl rest
  | not =>
      have hpair : lexPair? ('!' :: rest) = none := by
        unfold lexPair?
        split <;> simp_all
      have hlex : lex '!' rest = (.bang, rest) := by simp [lex, hpair, single?]
      exact scans_of_lex (by decide) hlex

namespace Scanned

variable {x y z : List Char} {ts us : List Token}

theorem spaced {t : Token} (hx : Scanned x ts) (hy : Scanned y us)
    (hz : ∀ rest, Scans z [t] (' ' :: rest)) : Scanned (spaced x z y) (ts ++ t :: us) := by
  intro rest hrest
  have hright : Scans (' ' :: y) us rest := (scans_blank (y ++ rest)).append (hy rest hrest)
  have hword : Scans (z ++ ' ' :: y) (t :: us) rest := (hz (y ++ rest)).append hright
  have hleft : Scans (' ' :: (z ++ ' ' :: y)) (t :: us) rest := (scans_blank _).append hword
  exact (hx _ (delimits_cons (by decide) _)).append hleft

/-- A text between two marks. -/
theorem between {c d : Char} {s t : Token} (hx : Scanned x ts) (hc : ∀ rest, Scans [c] [s] rest)
    (hd : ∀ rest, Scans [d] [t] rest) (hdelimits : d ∈ [' ', ')', ',', ']']) :
    Scanned (c :: x ++ [d]) (s :: ts ++ [t]) := by
  intro rest _
  have hinner : Scans (x ++ [d]) (ts ++ [t]) rest :=
    (hx _ (delimits_cons hdelimits rest)).append (hd rest)
  exact (hc _).append hinner

end Scanned

/-! ### Written expressions -/

/-- The text starts and ends with characters that are no blanks, and a sign in front of it stays
alone. -/
structure Compact (x : List Char) : Prop where
  first : ∃ c tail, x = c :: tail ∧ Text.isBlank c = false ∧ c ≠ '='
  last : x.getLast?.any Text.isBlank = false

namespace Compact

variable {x y : List Char}

theorem head?_append (h : Compact x) (rest : List Char) : (x ++ rest).head? ≠ some '=' := by
  obtain ⟨c, tail, rfl, -, hc⟩ := h.first
  simpa using hc

theorem of_ends {c d : Char} {w : List Char} (hc : Text.isBlank c = false) (hne : c ≠ '=')
    (hd : Text.isBlank d = false) : Compact (c :: w ++ [d]) where
  first := ⟨c, w ++ [d], rfl, hc, hne⟩
  last := by
    rw [List.getLast?_concat]
    exact hd

theorem append (hx : Compact x) (w : List Char) (hy : Compact y) : Compact (x ++ w ++ y) where
  first := by
    obtain ⟨c, tail, rfl, hc⟩ := hx.first
    exact ⟨c, tail ++ w ++ y, rfl, hc⟩
  last := by
    obtain ⟨c, tail, rfl, -⟩ := hy.first
    rw [List.getLast?_append_of_ne_nil _ (by simp)]
    exact hy.last

theorem spaced (hx : Compact x) (w : List Char) (hy : Compact y) :
    Compact (spaced x w y) := by
  have h := hx.append (' ' :: w ++ [' ']) hy
  simpa [Script.spaced] using h

theorem singleton {c : Char} (hc : Text.isBlank c = false) (hne : c ≠ '=') : Compact [c] :=
  ⟨⟨c, [], rfl, hc, hne⟩, by simpa using hc⟩

theorem cons {c : Char} (hc : Text.isBlank c = false) (hne : c ≠ '=') (hx : Compact x) :
    Compact (c :: x) := (singleton hc hne).append [] hx

/-- Words and numerals have no blanks at all. -/
theorem of_continuesName (hne : x ≠ []) (h : ∀ c ∈ x, continuesName c = true) : Compact x where
  first := by
    obtain ⟨c, tail, rfl⟩ := List.exists_cons_of_ne_nil hne
    have hc := h c (by simp)
    refine ⟨c, tail, rfl, isBlank_of_continuesName hc, ?_⟩
    rintro rfl
    cases hc
  last := by
    cases hlast : x.getLast? with
    | none => rfl
    | some c => exact isBlank_of_continuesName (h c (List.mem_of_getLast? hlast))

end Compact

/-- The text is scanned into tokens that are read as the expression in the form `p`. -/
structure Prints (p : Form) (x : List Char) (e : Expr) : Prop where
  compact : Compact x
  parses : ∃ ts, Scanned x ts ∧ Parses p ts e

namespace Prints

variable {p q : Form} {x y z : List Char} {e a b : Expr}

theorem loosen (h : Prints p x e) (hle : q.rank ≤ p.rank) : Prints q x e := by
  obtain ⟨ts, hscanned, hparses⟩ := h.parses
  exact ⟨h.compact, ts, hscanned, hparses.loosen hle⟩

theorem enclosed (h : Prints p x e) : Prints .value ('(' :: x ++ [')']) e := by
  obtain ⟨ts, hscanned, hparses⟩ := h.parses
  have hconditional : Parses .conditional ts e := hparses.loosen (Nat.zero_le _)
  refine ⟨.of_ends (by decide) (by decide) (by decide), _, ?_, hconditional.enclosed⟩
  exact hscanned.between (scans_single (by decide) (by decide) rfl)
    (scans_single (by decide) (by decide) rfl) (by decide)

/-- An operand that is not tight enough is enclosed. -/
theorem group (h : Prints e.form x e) (p : Form) : Prints p (group p e x) e := by
  unfold Script.group
  split
  · have hle : p.rank ≤ Form.value.rank := by
      cases p with
      | binary l => cases l <;> decide
      | _ => decide
    exact h.enclosed.loosen hle
  · exact h.loosen (by omega)

theorem binary (s : Spelling) (op : BinaryOp) (hx : Prints (.binary op.level) x a)
    (hy : Prints op.level.tighter y b) :
    Prints (.binary op.level) (spaced x (op.text s) y) (.binary op a b) := by
  obtain ⟨ts, hts, hleft⟩ := hx.parses
  obtain ⟨us, hus, hright⟩ := hy.parses
  exact ⟨hx.compact.spaced _ hy.compact, _, hts.spaced hus (op.scans_text s),
    .binary (op.level_operator? s) hleft hright⟩

theorem unary (op : UnaryOp) (hx : Prints .sign x e) :
    Prints .sign (op.mark :: x) (.unary op e) := by
  obtain ⟨ts, hts, hoperand⟩ := hx.parses
  have hsign : sign? op.token = some op := by cases op <;> rfl
  have hmark : Text.isBlank op.mark = false ∧ op.mark ≠ '=' := by cases op <;> decide
  refine ⟨hx.compact.cons hmark.1 hmark.2, _, fun rest hrest => ?_, hoperand.sign hsign⟩
  exact (op.scans_mark (hx.compact.head?_append rest)).append (hts rest hrest)

theorem chosen {condition yes no : Expr} (hyes : Prints (.binary .or) x yes)
    (hcondition : Prints (.binary .or) y condition) (hno : Prints .conditional z no) :
    Prints .conditional (spaced x ['i', 'f'] (spaced y ['e', 'l', 's', 'e'] z))
      (.conditional condition yes no) := by
  obtain ⟨ts, hts, hyes'⟩ := hyes.parses
  obtain ⟨us, hus, hcondition'⟩ := hcondition.parses
  obtain ⟨vs, hvs, hno'⟩ := hno.parses
  refine ⟨hyes.compact.spaced _ (hcondition.compact.spaced _ hno.compact), _, ?_,
    hyes'.chosen hcondition' hno'⟩
  exact hts.spaced (hus.spaced hvs fun _ => scans_spelled rfl (by decide))
    fun _ => scans_spelled rfl (by decide)

theorem ternary {condition yes no : Expr} (hcondition : Prints (.binary .or) x condition)
    (hyes : Prints .conditional y yes) (hno : Prints .conditional z no) :
    Prints .conditional (spaced x ['?'] (spaced y [':'] z)) (.conditional condition yes no) := by
  obtain ⟨ts, hts, hcondition'⟩ := hcondition.parses
  obtain ⟨us, hus, hyes'⟩ := hyes.parses
  obtain ⟨vs, hvs, hno'⟩ := hno.parses
  refine ⟨hcondition.compact.spaced _ (hyes.compact.spaced _ hno.compact), _, ?_,
    hcondition'.ternary hyes' hno'⟩
  exact hts.spaced (hus.spaced hvs fun _ => scans_spelled rfl (by decide))
    fun _ => scans_spelled rfl (by decide)

theorem numeral (n : Number.Numeral) : Prints .value n.text (.number n.value) := by
  have hchars : ∀ c ∈ n.text, continuesName c = true := by
    intro c hc
    rcases Formula.isDigit_or_point_of_isNumeral ⟨n, rfl⟩ c hc with hdigit | rfl
    · exact Formula.continuesName_of_isNameChar (Formula.isNameChar_of_isDigit hdigit)
    · decide
  have hne : n.text ≠ [] := by
    obtain ⟨c, tail, htext, -⟩ := n.text_eq_cons
    simp [htext]
  refine ⟨.of_continuesName hne hchars, _, fun rest hrest => ?_, .number n.value⟩
  have hscans := scans_numeral n (hrest.any (by decide))
  rwa [n.read?_text] at hscans

theorem text (s : String) : Prints .value (quote s.toList) (.text s) := by
  refine ⟨.of_ends (by decide) (by decide) (by decide), _, fun rest hrest => ?_, .text s⟩
  have hscans := scans_quote s.toList (hrest.head?_ne (by decide))
  rwa [String.ofList_toList] at hscans

theorem word {n : String} (h : IsWord n.toList) (hnot : n ≠ "not") :
    Prints .value n.toList (wordValue n) := by
  refine ⟨.of_continuesName h.ne_nil h.all, _, fun rest hrest => ?_, .word hnot⟩
  have hscans := scans_word h (hrest.any (by decide))
  rwa [String.ofList_toList] at hscans

end Prints

/-! ### Written items -/

/-- The text is scanned into tokens that are read as items. -/
def PrintsItems (x : List Char) (es : List Expr) : Prop := ∃ ts, Scanned x ts ∧ ParsesItems ts es

/-- The text is scanned into tokens that are read as further items. -/
structure PrintsMore (x : List Char) (es : List Expr) : Prop where
  delimits : ∀ rest, Delimits rest → Delimits (x ++ rest)
  parses : ∃ ts, Scanned x ts ∧ ParsesMore ts es

section

variable {x y : List Char} {e : Expr} {es : List Expr} {n : String}

theorem scanned_nil : Scanned [] [] := fun _ _ => rfl

theorem PrintsMore.nil : PrintsMore [] [] := ⟨fun _ h => h, [], scanned_nil, .nil⟩

theorem PrintsMore.cons (hx : Prints .conditional x e) (hy : PrintsMore y es) :
    PrintsMore (',' :: ' ' :: (x ++ y)) (e :: es) := by
  obtain ⟨ts, hts, hitem⟩ := hx.parses
  obtain ⟨us, hus, hmore⟩ := hy.parses
  refine ⟨fun rest _ => delimits_cons (by decide) _, _, fun rest hrest => ?_, .cons hitem hmore⟩
  have hitems : Scans (x ++ y) (ts ++ us) rest :=
    (hts _ (hy.delimits rest hrest)).append (hus rest hrest)
  have hblank : Scans (' ' :: (x ++ y)) (ts ++ us) rest := (scans_blank _).append hitems
  exact (scans_single (c := ',') (by decide) (by decide) rfl _).append hblank

theorem PrintsItems.nil : PrintsItems [] [] := ⟨[], scanned_nil, .nil⟩

theorem PrintsItems.cons (hx : Prints .conditional x e) (hy : PrintsMore y es) :
    PrintsItems (x ++ y) (e :: es) := by
  obtain ⟨ts, hts, hitem⟩ := hx.parses
  obtain ⟨us, hus, hmore⟩ := hy.parses
  refine ⟨_, fun rest hrest => ?_, .cons hitem hmore⟩
  exact (hts _ (hy.delimits rest hrest)).append (hus rest hrest)

theorem Prints.array (h : PrintsItems x es) :
    Prints .value ('[' :: x ++ [']']) (.array es) := by
  obtain ⟨ts, hts, hitems⟩ := h
  refine ⟨.of_ends (by decide) (by decide) (by decide), _, ?_, .array hitems⟩
  exact hts.between (scans_single (by decide) (by decide) rfl)
    (scans_single (by decide) (by decide) rfl) (by decide)

theorem Prints.call (hn : IsWord n.toList) (hnot : n ≠ "not") (h : PrintsItems x es) :
    Prints .value (n.toList ++ '(' :: x ++ [')']) (.call n es) := by
  obtain ⟨ts, hts, hitems⟩ := h
  have hname : Compact n.toList := .of_continuesName hn.ne_nil hn.all
  have hlast : Compact [')'] := .singleton (by decide) (by decide)
  refine ⟨hname.append ('(' :: x) hlast, _, fun rest hrest => ?_, .call hnot hitems⟩
  have hscans : Scans n.toList [.name (.ofList n.toList)] ('(' :: x ++ [')'] ++ rest) :=
    scans_word hn rfl
  rw [String.ofList_toList] at hscans
  have harguments : Scanned ('(' :: x ++ [')']) (.leftParen :: ts ++ [.rightParen]) :=
    hts.between (scans_single (by decide) (by decide) rfl)
      (scans_single (by decide) (by decide) rfl) (by decide)
  rw [List.append_assoc]
  exact hscans.append (harguments rest hrest)

end

/-! ### Every expression -/

theorem wordValue_of_notMem {n : String} (h : n ∉ scriptWords) : wordValue n = .name n := by
  simp only [scriptWords, List.mem_cons, List.not_mem_nil, or_false, not_or] at h
  simp [wordValue, h]

theorem ne_not_of_notMem {n : String} (h : n ∉ scriptWords) : n ≠ "not" := by
  rintro rfl
  exact h (by decide)

theorem isWord_truthWord (i : Fin 3) (b : Bool) :
    IsWord (truthWord i b).toList ∧ truthWord i b ≠ "not" := by
  revert i b
  decide +kernel

theorem wordValue_truthWord (i : Fin 3) (b : Bool) : wordValue (truthWord i b) = .boolean b := by
  match i, b with
  | 0, true | 1, true | 2, true | 0, false | 1, false | 2, false => rfl

theorem isWord_nothingWord (i : Fin 3) :
    IsWord (nothingWord i).toList ∧ nothingWord i ≠ "not" := by
  revert i
  decide +kernel

theorem wordValue_nothingWord (i : Fin 3) : wordValue (nothingWord i) = .null := by
  match i with
  | 0 | 1 | 2 => rfl

mutual

theorem prints_render (styles : Styles) (e : Expr) (h : Legible styles e) :
    Prints e.form (render styles e) e := by
  cases e with
  | number x =>
      obtain rfl : styles.top.numeral.value = x := h
      exact .numeral _
  | text s => exact .text s
  | boolean b =>
      obtain ⟨hword, hnot⟩ := isWord_truthWord styles.top.literal b
      have hprints := Prints.word hword hnot
      rwa [wordValue_truthWord] at hprints
  | null =>
      obtain ⟨hword, hnot⟩ := isWord_nothingWord styles.top.literal
      have hprints := Prints.word hword hnot
      rwa [wordValue_nothingWord] at hprints
  | array items => exact .array (prints_renderItems styles 0 items h)
  | name n =>
      have hprints := Prints.word h.word (ne_not_of_notMem h.free)
      rwa [wordValue_of_notMem h.free] at hprints
  | binary op left right =>
      exact .binary _ op ((prints_render (styles.part 0) left h.1).group _)
        ((prints_render (styles.part 1) right h.2).group _)
  | unary op operand => exact .unary op ((prints_render (styles.part 0) operand h).group _)
  | conditional condition yes no =>
      have hcondition := prints_render (styles.part 0) condition h.1
      have hyes := prints_render (styles.part 1) yes h.2.1
      have hno : Prints .conditional _ no :=
        (prints_render (styles.part 2) no h.2.2).loosen (Nat.zero_le _)
      rw [render]
      split
      · exact .chosen (hyes.group _) (hcondition.group _) hno
      · exact .ternary (hcondition.group _) (hyes.loosen (Nat.zero_le _)) hno
  | call function arguments =>
      exact .call h.1.word (ne_not_of_notMem h.1.free) (prints_renderItems styles 0 arguments h.2)

theorem prints_renderItems (styles : Styles) (i : Nat) (es : List Expr)
    (h : LegibleItems styles i es) : PrintsItems (renderItems styles i es) es := by
  cases es with
  | nil => exact .nil
  | cons e es =>
      exact .cons ((prints_render (styles.part i) e h.1).loosen (Nat.zero_le _))
        (prints_renderMore styles (i + 1) es h.2)

theorem prints_renderMore (styles : Styles) (i : Nat) (es : List Expr)
    (h : LegibleItems styles i es) : PrintsMore (renderMore styles i es) es := by
  cases es with
  | nil => exact .nil
  | cons e es =>
      exact .cons ((prints_render (styles.part i) e h.1).loosen (Nat.zero_le _))
        (prints_renderMore styles (i + 1) es h.2)

end

/-- A written expression is read as that expression, however it is spelled: with parentheses only
where a part is looser than its place in the table asks. -/
theorem read_render (styles : Styles) (e : Expr) (h : Legible styles e) :
    read (render styles e) = .ok e := by
  have hprints : Prints .conditional (render styles e) e :=
    (prints_render styles e h).loosen (Nat.zero_le _)
  obtain ⟨ts, hscanned, hparses⟩ := hprints.parses
  have hfirst : (render styles e).head?.any Text.isBlank = false := by
    obtain ⟨c, tail, hx, hc, -⟩ := hprints.compact.first
    simpa [hx] using hc
  have htokens : tokens (render styles e) = ts := by
    have hall := hscanned [] (by simp [Delimits])
    have hnil : tokens [] = [] := tokens_eq_nil rfl
    simpa [Scans, hnil] using hall
  rw [read, Text.trim_eq_self hfirst hprints.compact.last, htokens, readTokens_eq_ok_iff]
  have hstops : Stops .conditional [] := by simp [Stops]
  simpa using hparses.derivation hstops

/-- Both spellings of both kinds in one script, with operands that need parentheses and others that
do not. -/
theorem read_render_mixed :
    let styles : Styles := fun path =>
      ⟨if path = [0] then .signs else .words, if path = [] then .words else .signs, 0, .ofNat 7⟩
    let e : Expr := .conditional
      (.binary .or (.unary .not (.binary .and (.name "a") (.name "b"))) (.name "größe"))
      (.binary .subtract (.number (Number.ofDecimal 7 0))
        (.binary .subtract (.text "x\"y") (.boolean true)))
      (.conditional (.conditional (.name "c") .null (.name "d"))
        (.call "Math.max" [.array [], .name "e"]) (.unary .negate (.unary .negate (.name "f"))))
    Legible styles e ∧
      render styles e =
        ("7 - (\"x\\\"y\" - True) if !(a and b) || größe else " ++
          "(c ? None : d) ? Math.max([], e) : --f").toList ∧
      read (render styles e) = .ok e := by
  intro styles e
  have hlegible : Legible styles e := by
    have hnames : ∀ n ∈ ["a", "b", "c", "d", "e", "f", "größe", "Math.max"], IsNameable n := by
      decide +kernel
    have hseven : (Number.Numeral.ofNat 7).value = Number.ofDecimal 7 0 :=
      Number.Numeral.value_ofNat 7
    simp [e, styles, Legible, LegibleItems, Styles.top, Styles.part, hnames, hseven]
  exact ⟨hlegible, by decide +kernel, read_render styles e hlegible⟩

end SheetBoard.Script
