import Mathlib.Algebra.Group.Nat.Defs
import Mathlib.Data.List.Basic
import SheetBoard.Calendar.Read
import SheetBoard.Proofs.Number.Numeral

/-! Dates that are written in digits, and what each form of a date reads from them. -/

namespace SheetBoard.Calendar

/-! ### Runs of digits -/

/-- Digits that are read as one number of at most `width` digits. -/
structure IsRun (width : Nat) (ds : List Char) : Prop where
  ne_nil : ds ≠ []
  length_le : ds.length ≤ width
  digits : ∀ c ∈ ds, Number.isDigit c = true

theorem isBlank_of_isDigit {c : Char} (h : Number.isDigit c = true) : Text.isBlank c = false := by
  have hlow : 48 ≤ c.toNat := by
    simp only [Number.isDigit, Bool.and_eq_true, decide_eq_true_eq] at h
    exact h.1
  have hhigh : c.toNat ≤ 57 := by
    simp only [Number.isDigit, Bool.and_eq_true, decide_eq_true_eq] at h
    exact h.2
  simp only [Text.isBlank, Text.inRanges, Text.blankRanges, List.any_cons, List.any_nil,
    Bool.or_false, Bool.or_eq_false_iff, Bool.and_eq_false_iff, decide_eq_false_iff_not]
  omega

namespace IsRun

variable {width : Nat} {ds : List Char}

theorem digitsOf {n : Nat} (hn : n < 10 ^ width) (hwidth : 0 < width) :
    IsRun width (Number.digitsOf n) where
  ne_nil := Number.digitsOf_ne_nil n
  length_le := (Nat.length_toDigits_le_iff (by decide) hwidth).2 hn
  digits _ := Number.isDigit_of_mem_digitsOf

theorem padded {n : Nat} (hn : n < 10 ^ width) (hwidth : 0 < width) :
    IsRun width (padded width n) where
  ne_nil := by simp [Calendar.padded, Number.digitsOf_ne_nil]
  length_le := by
    have hlength := (digitsOf hn hwidth).length_le
    rw [Calendar.padded, List.length_append, List.length_replicate]
    omega
  digits := by
    intro c hc
    rcases List.mem_append.1 hc with hc | hc
    · rw [List.eq_of_mem_replicate hc]
      rfl
    · exact Number.isDigit_of_mem_digitsOf hc

variable (h : IsRun width ds)
include h

theorem mono {wider : Nat} (hwider : width ≤ wider) : IsRun wider ds :=
  ⟨h.ne_nil, Nat.le_trans h.length_le hwider, h.digits⟩

theorem any_head? (rest : List Char) : (ds ++ rest).head?.any Text.isBlank = false := by
  obtain ⟨c, ds, rfl⟩ := List.exists_cons_of_ne_nil h.ne_nil
  exact isBlank_of_isDigit (h.digits c (by simp))

theorem any_getLast? (front : List Char) : (front ++ ds).getLast?.any Text.isBlank = false := by
  rw [List.getLast?_append_of_ne_nil _ h.ne_nil, List.getLast?_eq_some_getLast h.ne_nil]
  exact isBlank_of_isDigit (h.digits _ (List.getLast_mem h.ne_nil))

theorem trimStart (rest : List Char) : Text.trimStart (ds ++ rest) = ds ++ rest := by
  obtain ⟨c, ds, rfl⟩ := List.exists_cons_of_ne_nil h.ne_nil
  exact List.dropWhile_cons_of_neg (by simp [isBlank_of_isDigit (h.digits c (by simp))])

theorem readDigits? {rest : List Char} (hrest : rest.head?.any Number.isDigit = false) :
    readDigits? width (ds ++ rest) = some (Number.natOfDigits ds, rest) := by
  have hall : ((ds ++ rest).takeWhile Number.isDigit).take width = ds := by
    rw [Number.takeWhile_append_of_all h.digits hrest, List.take_of_length_le h.length_le]
  simp [Calendar.readDigits?, hall, h.ne_nil]

end IsRun

theorem readYear?_run {ds rest : List Char} (h : IsRun 4 ds)
    (hrest : rest.head?.any Number.isDigit = false) :
    readYear? (ds ++ rest) = some ((Number.natOfDigits ds : Int), rest) := by
  have hread := h.readDigits? hrest
  obtain ⟨c, ds, rfl⟩ := List.exists_cons_of_ne_nil h.ne_nil
  have hc := h.digits c (by simp)
  unfold readYear?
  split
  · rename_i heq
    obtain ⟨rfl, -⟩ := List.cons.inj heq
    cases hc
  · rename_i heq
    obtain ⟨rfl, -⟩ := List.cons.inj heq
    cases hc
  · rw [hread]
    rfl

theorem natOfDigits_padded (width n : Nat) : Number.natOfDigits (padded width n) = n := by
  have hzeros : ∀ (k : Nat) (ds : List Char),
      Number.natOfDigits (List.replicate k '0' ++ ds) = Number.natOfDigits ds := by
    intro k ds
    induction k with
    | zero => rfl
    | succ k ih => exact ih
  rw [padded, hzeros, Number.natOfDigits_digitsOf]

/-! ### The pieces of a date -/

/-- The pieces that a date is made of. -/
inductive Part where
  | year | month | day
  deriving DecidableEq

namespace Part

def field : Part → Field
  | year => .year
  | month => .month
  | day => .day

def width : Part → Nat
  | year => 4
  | month => 2
  | day => 2

/-- The numbers that the piece may have in any date. -/
def Admits : Part → Nat → Prop
  | year, _ => True
  | month, n => n ≤ 12
  | day, n => n ≤ 31

instance : (p : Part) → (n : Nat) → Decidable (p.Admits n)
  | year, _ => isTrue trivial
  | month, n => inferInstanceAs (Decidable (n ≤ 12))
  | day, n => inferInstanceAs (Decidable (n ≤ 31))

def put : Part → Nat → Date → Date
  | year, n, d => { d with year := n }
  | month, n, d => { d with month := n }
  | day, n, d => { d with day := n }

theorem read?_run (p : Part) {ds rest : List Char} (h : IsRun p.width ds)
    (hrest : rest.head?.any Number.isDigit = false) (m : Moment) :
    p.field.read? m (ds ++ rest) =
      if p.Admits (Number.natOfDigits ds) then
        some ({ m with date := p.put (Number.natOfDigits ds) m.date }, rest)
      else none := by
  cases p with
  | year =>
      simp only [Field.read?, field, h.trimStart, readYear?_run h hrest]
      simp [Admits, put]
  | month =>
      have hread : readDigits? 2 (ds ++ rest) = _ := h.readDigits? hrest
      simp only [Field.read?, field, h.trimStart, hread]
      rfl
  | day =>
      have hread : readDigits? 2 (ds ++ rest) = _ := h.readDigits? hrest
      simp only [Field.read?, field, h.trimStart, hread]
      rfl

end Part

/-! ### Forms -/

/-- Reads some pieces into a moment, one after the other. -/
def readPieces (fields : List Field) (m : Moment) (cs : List Char) : Option (Moment × List Char) :=
  fields.foldlM (fun state field => field.read? state.1 state.2) (m, cs)

theorem readPieces_cons (field : Field) (fields : List Field) (m : Moment) (cs : List Char) :
    readPieces (field :: fields) m cs =
      (field.read? m cs).bind fun state => readPieces fields state.1 state.2 :=
  List.foldlM_cons

theorem readForm?_eq (form : List Field) (cs : List Char) :
    readForm? form cs = (readPieces form midnight cs).bind fun state =>
      if state.2 = [] ∧ state.1.date.isValid = true then some state.1 else none := by
  have hread : readForm? form cs = (readPieces form midnight cs).bind fun state =>
      (if (state.2.isEmpty && state.1.date.isValid) = true then some () else none).bind fun _ =>
        some state.1 := rfl
  rw [hread]
  refine congrArg _ (funext fun state => ?_)
  simp only [Bool.and_eq_true, List.isEmpty_iff]
  split <;> rfl

theorem readPieces_mark (c d : Char) (fields : List Field) (m : Moment) (cs : List Char) :
    readPieces (.mark d :: fields) m (c :: cs) =
      if c = d then readPieces fields m cs else none := by
  rw [readPieces_cons]
  by_cases hc : c = d <;> simp [Field.read?, hc]

theorem readPieces_run (p : Part) {ds rest : List Char} (h : IsRun p.width ds)
    (hrest : rest.head?.any Number.isDigit = false) (fields : List Field) (m : Moment) :
    readPieces (p.field :: fields) m (ds ++ rest) =
      if p.Admits (Number.natOfDigits ds) then
        readPieces fields { m with date := p.put (Number.natOfDigits ds) m.date } rest
      else none := by
  rw [readPieces_cons, p.read?_run h hrest]
  split <;> rfl

section

variable {c : Char} (hc : Number.isDigit c = false) (p q r : Part) {x : List Char}
  (hx : IsRun p.width x)
include hc hx

/-- A form with another mark reads nothing. -/
theorem readForm?_other {d : Char} (hd : c ≠ d) (rest : List Char) :
    readForm? (marked d p.field q.field r.field) (x ++ c :: rest) = none := by
  have hrest : (c :: rest).head?.any Number.isDigit = false := hc
  rw [readForm?_eq, marked, readPieces_run p hx hrest, readPieces_mark, if_neg hd, ite_self]
  rfl

/-- A form with the mark reads the whole text, if it is a date. -/
theorem readForm?_marked {y z : List Char} (hy : IsRun q.width y) (hz : IsRun r.width z) :
    readForm? (marked c p.field q.field r.field) (x ++ c :: (y ++ c :: z)) =
      let date := r.put (Number.natOfDigits z)
        (q.put (Number.natOfDigits y) (p.put (Number.natOfDigits x) midnight.date))
      if p.Admits (Number.natOfDigits x) ∧ q.Admits (Number.natOfDigits y) ∧
          r.Admits (Number.natOfDigits z) ∧ date.isValid = true then
        some { midnight with date := date }
      else none := by
  have hmark : ∀ rest, (c :: rest).head?.any Number.isDigit = false := fun _ => hc
  have hlast : ∀ m, readPieces [r.field] m (z ++ []) = _ := readPieces_run r hz rfl []
  rw [List.append_nil] at hlast
  rw [readForm?_eq, marked, readPieces_run p hx (hmark _), readPieces_mark, if_pos rfl,
    readPieces_run q hy (hmark _), readPieces_mark, if_pos rfl, hlast]
  by_cases hp : p.Admits (Number.natOfDigits x) <;>
    by_cases hq : q.Admits (Number.natOfDigits y) <;>
    by_cases hr : r.Admits (Number.natOfDigits z) <;> simp [hp, hq, hr, readPieces]

end

/-! ### Written dates -/

/-- The first moment of a day. -/
def Date.start (d : Date) : Moment := { midnight with date := d }

/-- The pieces of the date in digits. -/
structure Written (d : Date) (text : Part → List Char) : Prop where
  run : ∀ p, IsRun p.width (text p)
  year : d.year = Number.natOfDigits (text .year)
  month : d.month = Number.natOfDigits (text .month)
  day : d.day = Number.natOfDigits (text .day)

/-- The pieces with a mark between them. -/
def join (c : Char) (text : Part → List Char) (p q r : Part) : List Char :=
  text p ++ c :: (text q ++ c :: text r)

theorem Date.isValid_iff (d : Date) : d.isValid = true ↔ (-262143 ≤ d.year ∧ d.year ≤ 262142) ∧
    (1 ≤ d.month ∧ d.month ≤ 12) ∧ 1 ≤ d.day ∧ d.day ≤ daysInMonth d.year d.month := by
  simp only [Date.isValid, Bool.and_eq_true, decide_eq_true_eq]
  tauto

theorem daysInMonth_bounds (year : Int) (month : Nat) :
    28 ≤ daysInMonth year month ∧ daysInMonth year month ≤ 31 := by
  unfold daysInMonth
  split
  · split <;> decide
  · split <;> decide

theorem Date.bounds_of_isValid {d : Date} (h : d.isValid = true) : d.month ≤ 12 ∧ d.day ≤ 31 := by
  obtain ⟨-, hmonth, hday⟩ := d.isValid_iff.1 h
  have hdays := daysInMonth_bounds d.year d.month
  omega

namespace Written

variable {d : Date} {text : Part → List Char} (h : Written d text)
include h

theorem put_put_put {p q r : Part} (hpq : p ≠ q) (hpr : p ≠ r) (hqr : q ≠ r) (e : Date) :
    r.put (Number.natOfDigits (text r)) (q.put (Number.natOfDigits (text q))
      (p.put (Number.natOfDigits (text p)) e)) = d := by
  obtain ⟨year, month, day⟩ := d
  obtain ⟨-, rfl, rfl, rfl⟩ := h
  cases p <;> cases q <;> cases r <;> simp_all [Part.put]

theorem trim_join (c : Char) (p q r : Part) :
    Text.trim (join c text p q r) = join c text p q r := by
  refine Text.trim_eq_self ((h.run p).any_head? _) ?_
  have hlast := (h.run r).any_getLast? (text p ++ c :: (text q ++ [c]))
  simpa [join] using hlast

/-- The form of another mark reads nothing, whatever its first piece takes. -/
theorem readForm?_other {c e : Char} (hc : Number.isDigit c = false) (he : c ≠ e) {p : Part}
    (p' q' r' q r : Part) (hwidth : p.width ≤ p'.width) :
    readForm? (marked e p'.field q'.field r'.field) (join c text p q r) = none :=
  Calendar.readForm?_other hc p' q' r' ((h.run p).mono hwidth) he _

variable (hd : d.isValid = true)
include hd

theorem admits (p : Part) : p.Admits (Number.natOfDigits (text p)) := by
  have hbounds := d.bounds_of_isValid hd
  cases p with
  | year => trivial
  | month => exact h.month ▸ hbounds.1
  | day => exact h.day ▸ hbounds.2

theorem readForm?_join {c : Char} (hc : Number.isDigit c = false) {p q r : Part} (hpq : p ≠ q)
    (hpr : p ≠ r) (hqr : q ≠ r) :
    readForm? (marked c p.field q.field r.field) (join c text p q r) = some d.start := by
  rw [join, readForm?_marked hc p q r (h.run p) (h.run q) (h.run r),
    h.put_put_put hpq hpr hqr midnight.date]
  exact if_pos ⟨h.admits hd p, h.admits hd q, h.admits hd r, hd⟩

theorem read?_dashes : read? (join '-' text .year .month .day) = some d.start := by
  have hfirst : readForm? (marked '-' .year .month .day) (join '-' text .year .month .day) = _ :=
    h.readForm?_join hd rfl (by decide) (by decide) (by decide)
  simp only [read?, h.trim_join, forms, List.findSome?_cons, hfirst]

theorem read?_month_first : read? (join '/' text .month .day .year) = some d.start := by
  have hother : readForm? (marked '-' .year .month .day) (join '/' text .month .day .year) = none :=
    h.readForm?_other rfl (by decide) .year .month .day _ _ (by decide)
  have hform : readForm? (marked '/' .month .day .year) (join '/' text .month .day .year) = _ :=
    h.readForm?_join hd rfl (by decide) (by decide) (by decide)
  simp only [read?, h.trim_join, forms, List.findSome?_cons, hother, hform]

/-- No month has the number of a day beyond the twelfth. -/
theorem read?_day_first (hday : 12 < d.day) :
    read? (join '/' text .day .month .year) = some d.start := by
  have hother : readForm? (marked '-' .year .month .day) (join '/' text .day .month .year) = none :=
    h.readForm?_other rfl (by decide) .year .month .day _ _ (by decide)
  have hmonth :
      readForm? (marked '/' .month .day .year) (join '/' text .day .month .year) = none := by
    have hadmits : ¬Part.month.Admits (Number.natOfDigits (text .day)) := by
      rw [← h.day]
      exact Nat.not_le.2 hday
    have hform := readForm?_marked (c := '/') rfl .month .day .year (h.run .day) (h.run .month)
      (h.run .year)
    exact hform.trans (if_neg fun hall => hadmits hall.1)
  have hform : readForm? (marked '/' .day .month .year) (join '/' text .day .month .year) = _ :=
    h.readForm?_join hd rfl (by decide) (by decide) (by decide)
  simp only [read?, h.trim_join, forms, List.findSome?_cons, hother, hmonth, hform]

end Written

end SheetBoard.Calendar
