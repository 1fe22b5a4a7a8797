import Mathlib.Order.Bounds.Basic
import SheetBoard.Proofs.Formula.Splitting

/-! The parenthesis that closes one. The search stops at the first place behind which the depth is
back to zero, and fails only if there is none. What it encloses stands on its own, and so does every
argument in it. -/

namespace SheetBoard.Formula

/-! ### Bytes -/

theorem byteSize_append (a b : List Char) : byteSize (a ++ b) = byteSize a + byteSize b := by
  induction a with
  | nil => simp [byteSize]
  | cons c a ih => rw [List.cons_append, byteSize, byteSize, ih, Nat.add_assoc]

theorem byteSize_le_of_isPrefix {a b : List Char} (h : a <+: b) : byteSize a ≤ byteSize b := by
  obtain ⟨rest, rfl⟩ := h
  rw [byteSize_append]
  exact Nat.le_add_right _ _

/-- A byte position cuts a text in one way at most. -/
theorem append_inj_of_byteSize {a b x y : List Char} (h : a ++ x = b ++ y)
    (hsize : byteSize a = byteSize b) : a = b ∧ x = y := by
  induction a generalizing b with
  | nil =>
      cases b with
      | nil => exact ⟨rfl, h⟩
      | cons d b =>
          have := d.utf8Size_pos
          simp only [byteSize] at hsize
          omega
  | cons c a ih =>
      cases b with
      | nil =>
          have := c.utf8Size_pos
          simp only [byteSize] at hsize
          omega
      | cons d b =>
          obtain ⟨rfl, htail⟩ := List.cons.inj h
          obtain ⟨rfl, rfl⟩ := ih htail (by simpa [byteSize] using hsize)
          exact ⟨rfl, rfl⟩

theorem dropBytes?_byteSize (a b : List Char) : dropBytes? (byteSize a) (a ++ b) = some b := by
  induction a with
  | nil => rw [byteSize, List.nil_append, dropBytes?]
  | cons c a ih =>
      obtain ⟨n, hn⟩ : ∃ n, byteSize (c :: a) = n + 1 :=
        Nat.exists_eq_add_one.2 (Nat.lt_of_lt_of_le c.utf8Size_pos (Nat.le_add_right _ _))
      have hrest : n + 1 - c.utf8Size = byteSize a := by
        rw [← hn, byteSize, Nat.add_sub_cancel_left]
      have hfits : ¬n + 1 < c.utf8Size := by
        rw [← hn, byteSize]
        omega
      rw [hn, List.cons_append, dropBytes?, if_neg hfits, hrest, ih]

/-! ### Depth -/

theorem level_append (st : QuoteState) (a b : List Char) :
    level st (a ++ b) = level st a + level (st.run a) b := by
  induction a generalizing st with
  | nil => simp [level]
  | cons c a ih => rw [List.cons_append, level, level, ih, QuoteState.run_cons, Int.add_assoc]

theorem weight_of_depthStep {d e : Nat} {p : Punctuation} (h : depthStep d p = some e) :
    (e : Int) = d + p.weight := by
  cases p with
  | right =>
      cases d with
      | zero => cases h
      | succ d =>
          obtain rfl : d = e := Option.some.inj h
          rw [Punctuation.weight]
          omega
  | _ =>
      obtain rfl := Option.some.inj h
      simp [Punctuation.weight]

/-- A depth that is defined never was below zero. -/
theorem level_of_depthAfter {d e : Nat} {st : QuoteState} {x : List Char}
    (h : depthAfter d st x = some e) :
    (e : Int) = d + level st x ∧ ∀ p, p <+: x → 0 ≤ d + level st p := by
  induction x generalizing d st with
  | nil =>
      obtain rfl : d = e := Option.some.inj h
      refine ⟨by simp [level], fun p hp => ?_⟩
      rw [List.prefix_nil.1 hp]
      simp [level]
  | cons c x ih =>
      obtain ⟨f, hstep, hrest⟩ := Option.bind_eq_some_iff.1 h
      obtain ⟨hlevel, hnonneg⟩ := ih hrest
      have hf := weight_of_depthStep hstep
      refine ⟨by rw [hlevel, hf, level, Int.add_assoc], fun p hp => ?_⟩
      rcases List.prefix_cons_iff.1 hp with rfl | ⟨q, rfl, hq⟩
      · simp [level]
      · have := hnonneg q hq
        rwa [hf, Int.add_assoc] at this

/-- The text stands on its own: its literals are closed, and the depth along it never goes below
zero and is zero at its end. -/
structure SelfContained (x : List Char) : Prop where
  closed : Closed x
  level : level .outside x = 0
  nonneg : ∀ p, p <+: x → 0 ≤ Formula.level .outside p

theorem Balanced.selfContained {x : List Char} (h : Balanced x) : SelfContained x := by
  obtain ⟨hlevel, hnonneg⟩ := level_of_depthAfter h.depth
  exact ⟨h.closed, by simpa using hlevel.symm, by simpa using hnonneg⟩

/-! ### The search -/

/-- Up to the parenthesis that is found, one is always open, and with it none. -/
theorem level_of_splitClose {d : Nat} {st : QuoteState} {cs inner rest : List Char}
    (h : splitClose (d + 1) st cs = some (inner, rest)) :
    (d : Int) + 1 + level st (inner ++ [')']) = 0 ∧
      ∀ p, p <+: inner → 0 < (d : Int) + 1 + level st p := by
  obtain ⟨-, hrun⟩ := splitClose_eq_some h
  obtain ⟨hlevel, hnonneg⟩ := level_of_depthAfter (depthAfter_of_splitClose h)
  have hlast : level .outside [')'] = -1 := rfl
  refine ⟨?_, fun p hp => ?_⟩
  · rw [level_append, hrun, hlast]
    omega
  · have := hnonneg p hp
    omega

/-- If none is found, one is open behind every part of the text. -/
theorem level_of_splitClose_eq_none {d : Nat} {st : QuoteState} {cs : List Char}
    (h : splitClose (d + 1) st cs = none) {p : List Char} (hp : p <+: cs) :
    0 < (d : Int) + 1 + level st p := by
  induction cs generalizing d st p with
  | nil =>
      rw [List.prefix_nil.1 hp, level]
      omega
  | cons c cs ih =>
      rcases List.prefix_cons_iff.1 hp with rfl | ⟨q, rfl, hq⟩
      · rw [level]
        omega
      have hkeep : ∀ e : Nat, (e : Int) = d + (punctuation st c).weight →
          keep [c] (splitClose (e + 1) (st.step c) cs) = none →
          0 < (d : Int) + 1 + level st (c :: q) := by
        intro e he hnone
        have := ih (Option.map_eq_none_iff.1 hnone) hq
        rw [level]
        omega
      rcases within_or_ends d st c with ⟨e, hwithin⟩ | ⟨rfl, rfl, rfl⟩ | ⟨rfl, rfl, rfl⟩
      · rw [hwithin.splitClose] at h
        exact hkeep e (weight_of_depthStep hwithin.depth) h
      · rw [splitClose_char (by simp)] at h
        exact hkeep 0 rfl h
      · rw [splitClose_last] at h
        cases h

/-! ### The matching parenthesis -/

theorem matchingParen?_eq (before tail : List Char) :
    matchingParen? (before ++ '(' :: tail) (byteSize before) =
      (splitClose 1 .outside tail).map fun p => byteSize before + 1 + byteSize p.1 := by
  have hleft : ∀ inner, byteSize ('(' :: inner) = 1 + byteSize inner := fun _ => rfl
  rw [matchingParen?, dropBytes?_byteSize, Option.bind_eq_bind, Option.bind_some, splitClose_left]
  cases splitClose 1 .outside tail with
  | none => rfl
  | some found => simp [keep, hleft, Nat.add_assoc]

/-- In a scan that starts at byte `start`, the depth is zero right behind the character at byte `i`.
-/
def ClosesAt (cs : List Char) (start i : Nat) : Prop :=
  ∃ before x c after, cs = before ++ (x ++ c :: after) ∧ byteSize before = start ∧
    start + byteSize x = i ∧ level .outside (x ++ [c]) = 0

theorem closesAt_iff (before tail : List Char) (i : Nat) :
    byteSize before < i ∧ ClosesAt (before ++ '(' :: tail) (byteSize before) i ↔
      ∃ p c after, tail = p ++ c :: after ∧ i = byteSize before + 1 + byteSize p ∧
        1 + level .outside (p ++ [c]) = 0 := by
  constructor
  · rintro ⟨hlt, before', x, c, after, htext, hsize, hi, hlevel⟩
    obtain ⟨rfl, htail⟩ := append_inj_of_byteSize htext hsize.symm
    cases x with
    | nil => simp [byteSize] at hi; omega
    | cons d p =>
        obtain ⟨rfl, rfl⟩ := List.cons.inj htail
        exact ⟨p, c, after, rfl, by rw [← hi, Nat.add_assoc]; rfl, hlevel⟩
  · rintro ⟨p, c, after, rfl, rfl, hlevel⟩
    refine ⟨by omega, before, '(' :: p, c, after, rfl, rfl, ?_, hlevel⟩
    rw [Nat.add_assoc]
    rfl

/-- No place in front of the parenthesis that is found has depth zero behind it. -/
theorem isPrefix_of_splitClose {tail inner after p after' : List Char} {c : Char}
    (h : splitClose 1 .outside tail = some (inner, after)) (htail : tail = p ++ c :: after')
    (hlevel : 1 + level .outside (p ++ [c]) = 0) : inner <+: p := by
  have hinner : inner <+: tail := ⟨')' :: after, (splitClose_eq_some h).1.symm⟩
  rcases Nat.lt_or_ge p.length inner.length with hlt | hge
  · have hp : p ++ [c] <+: tail := ⟨after', by simp [htail]⟩
    have hlength : (p ++ [c]).length ≤ inner.length := by
      rw [List.length_append, List.length_singleton]
      exact hlt
    have hpos := (level_of_splitClose (d := 0) h).2 (p ++ [c])
      (List.prefix_of_prefix_length_le hp hinner hlength)
    rw [Int.natCast_zero] at hpos
    omega
  · exact List.prefix_of_prefix_length_le hinner ⟨c :: after', htail.symm⟩ hge

theorem isLeast_of_splitClose (before : List Char) {tail inner after : List Char}
    (h : splitClose 1 .outside tail = some (inner, after)) :
    IsLeast {i | byteSize before < i ∧ ClosesAt (before ++ '(' :: tail) (byteSize before) i}
      (byteSize before + 1 + byteSize inner) := by
  simp only [closesAt_iff]
  refine ⟨⟨inner, ')', after, (splitClose_eq_some h).1, rfl, ?_⟩, ?_⟩
  · simpa using (level_of_splitClose (d := 0) h).1
  · rintro _ ⟨p, c, after', hp, rfl, hlevel⟩
    exact Nat.add_le_add_left (byteSize_le_of_isPrefix (isPrefix_of_splitClose h hp hlevel)) _

theorem not_closesAt_of_splitClose (before : List Char) {tail : List Char}
    (h : splitClose 1 .outside tail = none) :
    ¬∃ i, byteSize before < i ∧ ClosesAt (before ++ '(' :: tail) (byteSize before) i := by
  simp only [closesAt_iff]
  rintro ⟨i, p, c, after, rfl, -, hlevel⟩
  have := level_of_splitClose_eq_none (p := p ++ [c]) h (by simp)
  omega

/-- The parenthesis that closes the one at a byte of a text is at the first byte behind which the
depth is zero again, and there is none only if there is no such byte. The text between the two
stands on its own, and so does each of the arguments that it is cut into. -/
theorem matchingParen?_exact (before tail : List Char) :
    (∀ close, matchingParen? (before ++ '(' :: tail) (byteSize before) = some close ↔
      IsLeast {i | byteSize before < i ∧
        ClosesAt (before ++ '(' :: tail) (byteSize before) i} close) ∧
    (matchingParen? (before ++ '(' :: tail) (byteSize before) = none ↔
      ¬∃ i, byteSize before < i ∧ ClosesAt (before ++ '(' :: tail) (byteSize before) i) ∧
    ∀ close, matchingParen? (before ++ '(' :: tail) (byteSize before) = some close →
      ∃ inner after, tail = inner ++ ')' :: after ∧
        close = byteSize before + 1 + byteSize inner ∧ SelfContained inner ∧
        ∀ x ∈ argumentsOf inner, SelfContained x := by
  rw [matchingParen?_eq]
  cases hsplit : splitClose 1 .outside tail with
  | none =>
      have hopen := not_closesAt_of_splitClose before hsplit
      refine ⟨fun close => iff_of_false (by simp) fun h => hopen ⟨close, h.1⟩,
        iff_of_true rfl hopen, fun close h => ?_⟩
      cases h
  | some found =>
      obtain ⟨inner, after⟩ := found
      have hleast := isLeast_of_splitClose before hsplit
      have hinner : Balanced inner := balanced_of_splitClose hsplit
      refine ⟨fun close => ⟨fun h => ?_, fun h => ?_⟩,
        iff_of_false (by simp) fun h => h ⟨_, hleast.1⟩, fun close h => ?_⟩
      · obtain rfl := Option.some.inj h
        exact hleast
      · exact congrArg some (hleast.unique h)
      · obtain rfl := Option.some.inj h
        exact ⟨inner, after, (splitClose_eq_some hsplit).1, rfl, hinner.selfContained,
          fun x hx => (hinner.argumentsOf x hx).selfContained⟩

/-- The parenthesis in the literal does not count, and places are counted in bytes. -/
theorem matchingParen?_exact_literal :
    let before := "é+IF".toList
    let tail := "A>1,(B),\")\")+1".toList
    let cs := before ++ '(' :: tail
    matchingParen? cs 5 = some 17 ∧ IsLeast {i | 5 < i ∧ ClosesAt cs 5 i} 17 ∧
      ∃ inner after, tail = inner ++ ')' :: after ∧ 17 = 5 + 1 + byteSize inner ∧
        SelfContained inner ∧ ∀ x ∈ argumentsOf inner, SelfContained x := by
  intro before tail cs
  have hstart : byteSize before = 5 := by decide
  have hclose : matchingParen? cs 5 = some 17 := by decide
  have hexact := matchingParen?_exact before tail
  rw [hstart] at hexact
  exact ⟨hclose, (hexact.1 17).1 hclose, hexact.2.2 17 hclose⟩

end SheetBoard.Formula
