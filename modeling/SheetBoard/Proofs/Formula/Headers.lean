import SheetBoard.Proofs.Formula.Growth
import SheetBoard.Proofs.Formula.Resolving

/-! Headers of any spelling in a text. A header is found only where a word starts and ends, and it
is kept where a call opens, so in a script it can only be replaced where it ends with a number. -/

namespace SheetBoard.Formula

theorem Replaces.replaceAll {α : Type} {find : Pattern α}
    {form : Option Char → α → List Char → Option (List Char)} {x y : List Char}
    (h : Replaces (editOf find form) none x y []) : replaceAll find form x = y := by
  unfold Replaces at h
  rw [List.append_nil] at h
  rw [replaceAll_eq, h]
  simp [replaceFrom]

/-- A text that is found as a whole is replaced. -/
theorem replaceAll_found {α : Type} {find : Pattern α}
    {form : Option Char → α → List Char → Option (List Char)} {x y : List Char} {found : α}
    (hne : x ≠ []) (hfind : find none (x ++ []) = some (found, []))
    (hform : form none found [] = some y) : replaceAll find form x = y := by
  have hreplaced : Replaces (editOf find form) none x ((form none found []).getD x) [] :=
    replaces_found hne hfind
  rw [hform] at hreplaced
  exact hreplaced.replaceAll

/-! ### Headers as parts of a text -/

/-- The name starts and ends with letters, digits or underscores. -/
structure Bounded (name : List Char) : Prop where
  first : name.head?.any isOperandChar = true
  last : name.getLast?.any isOperandChar = true

theorem isSearchable_of_mem_searchedNames {schema : Schema} {name : String}
    (h : name ∈ searchedNames schema) : isSearchable name = true := by
  rw [searchedNames, List.mem_mergeSort, List.mem_filter] at h
  exact h.2

theorem bounded_of_isSearchable {name : String} (h : isSearchable name = true) :
    Bounded name.toList := by
  simp only [isSearchable, Bool.and_eq_true] at h
  exact ⟨h.1.1.1, h.1.1.2⟩

theorem Bounded.ne_nil {name : List Char} (h : Bounded name) : name ≠ [] := by
  rintro rfl
  cases h.first

section

variable {name a w b : List Char}

/-- What no name starts with can be left out in front. -/
theorem Bounded.infix_of_append_left (h : Bounded name) (ha : ∀ c ∈ a, isOperandChar c = false)
    (hname : name <:+: a ++ w) : name <:+: w := by
  induction a with
  | nil => exact hname
  | cons c a ih =>
      rcases List.infix_cons_iff.1 hname with hfront | hrest
      · obtain ⟨d, tail, rfl⟩ := List.exists_cons_of_ne_nil h.ne_nil
        obtain ⟨rfl, -⟩ := List.cons_prefix_cons.1 hfront
        have hfirst := h.first
        simp [ha d (by simp)] at hfirst
      · exact ih (fun d hd => ha d (by simp [hd])) hrest

/-- What no name ends with can be left out at the end. -/
theorem Bounded.infix_of_append_right (h : Bounded name) (hb : ∀ c ∈ b, isOperandChar c = false)
    (hname : name <:+: w ++ b) : name <:+: w := by
  have hreverse : Bounded name.reverse := ⟨by simpa using h.last, by simpa using h.first⟩
  rw [← List.reverse_infix, List.reverse_append] at hname
  rw [← List.reverse_infix]
  exact hreverse.infix_of_append_left (by simpa using hb) hname

end

section

variable {header : String} (hheader : isSearchable header = true) {a b : List Char}
include hheader

/-- No header is part of a number. -/
theorem not_infix_numeral (n : Number.Numeral) : ¬header.toList <:+: n.text := by
  intro hpart
  have hall : header.toList.all (fun c => Text.isAsciiDigit c || c = '.') = true := by
    rw [List.all_eq_true]
    intro c hc
    rcases isDigit_or_point_of_isNumeral ⟨n, rfl⟩ c (hpart.subset hc) with hdigit | rfl
    · have hascii : Text.isAsciiDigit c = true := hdigit
      simp [hascii]
    · simp
  simp [isSearchable, hall] at hheader

theorem not_infix_signed (ha : ∀ c ∈ a, isOperandChar c = false)
    (hb : ∀ c ∈ b, isOperandChar c = false) (minus : Bool) (n : Number.Numeral) :
    ¬header.toList <:+: a ++ (Number.signed minus n.text ++ b) := by
  intro hpart
  have hbounded := bounded_of_isSearchable hheader
  have hsigned := hbounded.infix_of_append_right hb (hbounded.infix_of_append_left ha hpart)
  refine not_infix_numeral hheader n ?_
  cases minus with
  | false => exact hsigned
  | true => exact hbounded.infix_of_append_left (a := ['-']) (by decide +kernel) hsigned

theorem not_infix_of_plain (ha : ∀ c ∈ a, isOperandChar c = false) : ¬header.toList <:+: a := by
  intro hpart
  have hbounded := bounded_of_isSearchable hheader
  have hempty := hbounded.infix_of_append_left (w := []) ha (by simpa using hpart)
  exact hbounded.ne_nil (by simpa using hempty)

end

/-! ### Headers that are found -/

theorem eq_append_of_wholeName {name cs rest : List Char} {before : Option Char} {found : Unit}
    (h : wholeName name before cs = some (found, rest)) :
    cs = name ++ rest ∧ Text.isBoundary before name.head? = true ∧
      Text.isBoundary name.getLast? rest.head? = true := by
  simp only [wholeName, ↓guard_eq_ite] at h
  split at h
  · rename_i hguard
    obtain ⟨-, rfl⟩ : () = found ∧ cs.drop name.length = rest := by simpa using h
    simp only [Bool.and_eq_true] at hguard
    obtain ⟨⟨hfront, hstart⟩, hend⟩ := hguard
    exact ⟨List.prefix_iff_eq_append.1 (List.isPrefixOf_iff_prefix.1 hfront) |>.symm, hstart, hend⟩
  · cases h

/-- A text stays if the name is refused wherever it is found. -/
theorem replaceAll_of_refused {name cs : List Char} (hname : name ≠ [])
    {form : Option Char → Unit → List Char → Option (List Char)}
    (h : ∀ x rest, cs = x ++ (name ++ rest) →
      Text.isBoundary (lastChar none x) name.head? = true →
      Text.isBoundary name.getLast? rest.head? = true → form (lastChar none x) () rest = none) :
    replaceAll (wholeName name) form cs = cs := by
  -- The search goes on behind a name that is kept, so the induction is on the length of the rest.
  have hstays : ∀ n x y, y.length ≤ n → cs = x ++ y →
      Replaces (editOf (wholeName name) form) (lastChar none x) y y [] := by
    intro n
    induction n with
    | zero =>
        intro x y hlength _
        obtain rfl : y = [] := List.length_eq_zero_iff.1 (Nat.le_zero.1 hlength)
        rfl
    | succ n ih =>
        intro x y hlength hcs
        cases hfound : wholeName name (lastChar none x) y with
        | none =>
            cases y with
            | nil => rfl
            | cons c y =>
                have hc : Replaces (editOf (wholeName name) form) (lastChar none x) [c] [c]
                    (y ++ []) := replaces_char (by simpa using hfound)
                have hrest := ih (x ++ [c]) y (by simpa using hlength) (by simpa using hcs)
                rw [lastChar_append] at hrest
                exact hc.append hrest
        | some result =>
            obtain ⟨found, rest⟩ := result
            obtain ⟨rfl, hstart, hend⟩ := eq_append_of_wholeName hfound
            have hkept : Replaces (editOf (wholeName name) form) (lastChar none x) name
                ((form (lastChar none x) () rest).getD name) rest := replaces_found hname hfound
            rw [h x rest hcs hstart hend, Option.getD_none] at hkept
            have hpos := List.length_pos_iff.2 hname
            have hrest := ih (x ++ name) rest (by simp at hlength; omega) (by simpa using hcs)
            rw [lastChar_append] at hrest
            exact Replaces.append (by simpa using hkept) hrest
  exact (hstays cs.length [] cs le_rfl rfl).replaceAll

/-- The name is the end of the text, and a word starts where it starts. -/
def EndsWith (name cs : List Char) : Prop :=
  ∃ x, cs = x ++ name ∧ Text.isBoundary (lastChar none x) name.head? = true

/-- A text that ends with an operand's character, where a word ends, ends with the first word or
goes on behind it. -/
theorem eq_or_append_of_word {u rest w b t : List Char} (hw : ∀ c ∈ w, isNameChar c = true)
    (hb : ∀ c ∈ b, isOperandChar c = false) (hlast : u.getLast?.any isOperandChar = true)
    (hend : Text.isBoundary u.getLast? rest.head? = true) (h : u ++ rest = w ++ (b ++ t)) :
    u = w ∧ rest = b ++ t ∨ ∃ v, u = w ++ b ++ v ∧ v ++ rest = t ∧ v.getLast? = u.getLast? := by
  obtain ⟨c, hc⟩ : ∃ c, u.getLast? = some c := by
    cases hu : u.getLast? with
    | none => simp [hu] at hlast
    | some c => exact ⟨c, rfl⟩
  have hoperand : isOperandChar c = true := by simpa [hc] using hlast
  rcases List.append_eq_append_iff.1 h with ⟨inner, rfl, hrest⟩ | ⟨more, rfl, hmore⟩
  · left
    cases inner with
    | nil => exact ⟨by simp, hrest⟩
    | cons d inner =>
        -- The word goes on, so it does not end here.
        have hd := isWordChar_of_isNameChar (hw d (by simp))
        have hword := isWordChar_of_isNameChar (hw c (by simp [List.mem_of_getLast? hc]))
        simp [Text.isBoundary, hc, hrest, hd, hword] at hend
  · by_cases hnil : more = []
    · subst hnil
      exact .inl ⟨by simp, hmore.symm⟩
    · right
      rw [List.getLast?_append_of_ne_nil _ hnil] at hc ⊢
      rcases List.append_eq_append_iff.1 hmore with ⟨v, rfl, ht⟩ | ⟨v, rfl, -⟩
      · have hv : v ≠ [] := by
          rintro rfl
          rw [List.append_nil] at hc
          rw [hb c (List.mem_of_getLast? hc)] at hoperand
          cases hoperand
        exact ⟨v, by simp, ht.symm, (List.getLast?_append_of_ne_nil _ hv).symm⟩
      · rw [hb c (by simp [List.mem_of_getLast? hc])] at hoperand
        cases hoperand

/-- A name that ends a text starts with the first word or behind it. -/
theorem suffix_or_eq_of_endsWith {name g w t : List Char} (hname : Bounded name)
    (hg : ∀ c ∈ g, isOperandChar c = false) (hw : ∀ c ∈ w, isNameChar c = true)
    (h : EndsWith name (g ++ (w ++ t))) : name <:+ t ∨ name = w ++ t := by
  obtain ⟨x, hx, hstart⟩ := h
  rcases List.append_eq_append_iff.1 hx with ⟨y, rfl, hy⟩ | ⟨more, rfl, rfl⟩
  · rcases List.append_eq_append_iff.1 hy with ⟨z, rfl, rfl⟩ | ⟨tail, rfl, rfl⟩
    · exact .inl (List.suffix_append z name)
    · cases tail with
      | nil => exact .inl (List.suffix_refl _)
      | cons d tail =>
          rcases List.eq_nil_or_concat y with rfl | ⟨front, c, rfl⟩
          · exact .inr rfl
          · -- The word has begun before, so none starts here.
            have hc := isWordChar_of_isNameChar (hw c (by simp))
            have hd := isWordChar_of_isNameChar (hw d (by simp))
            simp [Text.isBoundary, lastChar_of_ne_nil, hc, hd] at hstart
  · cases more with
    | nil => exact .inr rfl
    | cons d more =>
        have hfirst := hname.first
        simp [hg d (by simp)] at hfirst

/-- A text with one word in it stays, unless the word is the name. -/
theorem replaceAll_wholeName {name a w b : List Char} (h : Bounded name)
    {form : Option Char → Unit → List Char → Option (List Char)}
    (ha : ∀ c ∈ a, isOperandChar c = false) (hw : ∀ c ∈ w, isNameChar c = true)
    (hb : ∀ c ∈ b, isOperandChar c = false) (hne : name ≠ w) :
    replaceAll (wholeName name) form (a ++ (w ++ b)) = a ++ (w ++ b) := by
  refine replaceAll_of_refused h.ne_nil fun x rest htext hstart hend => ?_
  have hsame : (x ++ name).getLast? = name.getLast? := List.getLast?_append_of_ne_nil x h.ne_nil
  rw [← hsame] at hend
  have hlast : (x ++ name).getLast?.any isOperandChar = true := hsame ▸ h.last
  have hsplit : (x ++ name) ++ rest = [] ++ (a ++ (w ++ b)) := by simp [htext]
  rcases eq_or_append_of_word (by simp) ha hlast hend hsplit with
    ⟨hnil, -⟩ | ⟨v, hv, hrest, hvlast⟩
  · simp [h.ne_nil] at hnil
  · have hword : v ++ rest = w ++ (b ++ []) := by simpa using hrest
    rcases eq_or_append_of_word hw hb (hvlast ▸ hlast) (hvlast ▸ hend) hword with
      ⟨rfl, -⟩ | ⟨u, -, hnone, hulast⟩
    · have hends : EndsWith name (a ++ (v ++ [])) := ⟨x, by simpa using hv.symm, hstart⟩
      rcases suffix_or_eq_of_endsWith h ha hw hends with hsuffix | hfull
      · exact absurd (List.suffix_nil.1 hsuffix) h.ne_nil
      · exact absurd (by simpa using hfull) hne
    · obtain ⟨rfl, -⟩ := List.append_eq_nil_iff.1 hnone
      rw [← hvlast, ← hulast] at hlast
      cases hlast

/-! ### Ground pieces -/

/-- The mark is neither a word nor an operator of scripts. -/
def Mark.isFormal : Mark → Bool
  | .particle _ => false
  | .scriptOperator _ => false
  | _ => true

/-- A call, a whole number, a literal, or a mark of formulas. -/
def Piece.IsGround : Piece → Prop
  | .callee name => IsName name
  | .numeral digits => ∃ n, digits = Number.digitsOf n
  | .literal _ => True
  | .mark m => m.isFormal = true
  | _ => False

namespace Piece.IsGround

theorem isNameChar {digits : List Char} (h : (Piece.numeral digits).IsGround) :
    ∀ c ∈ digits, isNameChar c = true := by
  obtain ⟨n, rfl⟩ := h
  exact fun c hc => isNameChar_of_isDigit (Number.isDigit_of_mem_digitsOf hc)

variable {p : Piece} (h : p.IsGround)
include h

theorem valid : p.Valid := by
  cases p with
  | callee name => exact h
  | numeral digits =>
      obtain ⟨n, rfl⟩ := h
      exact Number.isNumeral_digitsOf n
  | reference r => cases h
  | _ => trivial

theorem ne_reference (r : Ref) : p ≠ .reference r := by
  rintro rfl
  cases h

theorem formal {m : Mark} (hm : p = .mark m) : m.Formal fun _ => false := by
  subst hm
  cases m with
  | particle w => cases h
  | scriptOperator op => cases h
  | _ => simp [Mark.Formal]

end Piece.IsGround

/-- No number ends the name. The text since the last literal is `done`. -/
def NoNumberEnds (name : List Char) : List Char → List Piece → Prop
  | _, [] => True
  | done, .numeral digits :: ps =>
    ¬EndsWith name (done ++ digits) ∧ NoNumberEnds name (done ++ digits) ps
  | _, .literal _ :: ps => NoNumberEnds name [] ps
  | done, p :: ps => NoNumberEnds name (done ++ p.text) ps

theorem Mark.isOperandChar_text :
    ∀ m : Mark, m.isFormal = true → ∀ c ∈ m.text, isOperandChar c = false := by
  refine Mark.of_all ?_
  decide +kernel

section

variable {name : List Char}

/-- A name that ends within some pieces ends in front of a parenthesis. -/
theorem opensCall_of_endsWith {ps : List Piece}
    (hps : ∀ p ∈ ps, p.IsGround ∧ p.isLiteral = false) {done u rest : List Char}
    (hnumbers : NoNumberEnds name done ps) (htext : u ++ rest = textOf ps)
    (hlast : u.getLast?.any isOperandChar = true)
    (hend : Text.isBoundary u.getLast? rest.head? = true) (hfound : EndsWith name (done ++ u)) :
    opensCall rest = true := by
  induction ps generalizing done u with
  | nil =>
      obtain ⟨rfl, -⟩ : u = [] ∧ rest = [] := by simpa using htext
      cases hlast
  | cons p ps ih =>
      obtain ⟨hground, hliteral⟩ := hps p (by simp)
      have hmore : ∀ q ∈ ps, q.IsGround ∧ q.isLiteral = false :=
        fun q hq => hps q (by simp [hq])
      have hgo : ∀ v, u = p.text ++ v → v ++ rest = textOf ps → v.getLast? = u.getLast? →
          NoNumberEnds name (done ++ p.text) ps → opensCall rest = true := by
        intro v hv hrest hsame hnumbers
        refine ih hmore hnumbers hrest (hsame ▸ hlast) (hsame ▸ hend) ?_
        simpa [hv] using hfound
      cases p with
      | callee callee =>
          have hsplit : u ++ rest = callee ++ (['('] ++ textOf ps) := by
            simpa [Piece.text] using htext
          rcases eq_or_append_of_word hground.all (by decide +kernel) hlast hend hsplit with
            ⟨-, rfl⟩ | ⟨v, hv, hrest, hsame⟩
          · rfl
          · exact hgo v hv hrest hsame hnumbers
      | numeral digits =>
          have hsplit : u ++ rest = digits ++ ([] ++ textOf ps) := htext
          have hdigits := hground.isNameChar
          rcases eq_or_append_of_word hdigits (by simp) hlast hend hsplit with
            ⟨rfl, -⟩ | ⟨v, hv, hrest, hsame⟩
          · exact absurd hfound hnumbers.1
          · exact hgo v (by simpa [Piece.text] using hv) hrest hsame hnumbers.2
      | mark m =>
          have hsplit : u ++ rest = [] ++ (m.text ++ textOf ps) := htext
          have hplain := m.isOperandChar_text hground
          rcases eq_or_append_of_word (by simp) hplain hlast hend hsplit with
            ⟨rfl, -⟩ | ⟨v, hv, hrest, hsame⟩
          · cases hlast
          · exact hgo v (by simpa [Piece.text] using hv) hrest hsame hnumbers
      | literal value => cases hliteral
      | _ => cases hground

/-- A header stays in pieces without literals if no number ends it. -/
theorem replaceAll_textOf (hname : Bounded name) {ps : List Piece}
    (hps : ∀ p ∈ ps, p.IsGround ∧ p.isLiteral = false) (hnumbers : NoNumberEnds name [] ps)
    (form : Option Char → Unit → List Char → Option (List Char)) :
    replaceAll (wholeName name) (referenceForm form) (textOf ps) = textOf ps := by
  refine replaceAll_of_refused hname.ne_nil fun x rest htext hstart hend => ?_
  have hsame : (x ++ name).getLast? = name.getLast? := List.getLast?_append_of_ne_nil x hname.ne_nil
  have hopens : opensCall rest = true := by
    refine opensCall_of_endsWith (u := x ++ name) hps hnumbers (by simp [htext]) ?_ ?_ ?_
    · rw [hsame]
      exact hname.last
    · rw [hsame]
      exact hend
    · exact ⟨x, rfl, hstart⟩
  simp [referenceForm, hopens]

theorem noNumberEnds_append {done : List Char} {front ps : List Piece}
    (hfront : ∀ p ∈ front, p.isLiteral = false) :
    NoNumberEnds name done (front ++ ps) ↔
      NoNumberEnds name done front ∧ NoNumberEnds name (done ++ textOf front) ps := by
  induction front generalizing done with
  | nil => simp [NoNumberEnds]
  | cons p front ih =>
      have hmore : NoNumberEnds name (done ++ p.text) (front ++ ps) ↔
          NoNumberEnds name (done ++ p.text) front ∧
            NoNumberEnds name (done ++ p.text ++ textOf front) ps :=
        ih fun q hq => hfront q (by simp [hq])
      have hp := hfront p (by simp)
      rw [List.cons_append, textOf_cons, ← List.append_assoc]
      cases p with
      | numeral digits => exact (and_congr_right fun _ => hmore).trans and_assoc.symm
      | literal value => cases hp
      | _ => exact hmore

theorem unquoted_ground {ps : List Piece}
    (h : ∀ p ∈ ps, p.IsGround ∧ p.isLiteral = false) : Unquoted (textOf ps) :=
  unquoted_textOf fun p hp => ⟨(h p hp).1.valid, (h p hp).2⟩

end

/-- One header where it stands on its own. -/
def resolveName (scope : Scope) (cs : List Char) (header : String) : List Char :=
  editUnquoted (replaceReferences (wholeName header.toList) fun _ _ _ =>
    some (scope.column header none)) cs

theorem resolveNames_eq (scope : Scope) (cs : List Char) :
    resolveNames scope cs = (searchedNames scope.schema).foldl (resolveName scope) cs := rfl

theorem foldl_resolveName_eq_self {scope : Scope} {headers : List String} {cs : List Char}
    (h : ∀ header ∈ headers, resolveName scope cs header = cs) :
    headers.foldl (resolveName scope) cs = cs := by
  induction headers with
  | nil => rfl
  | cons header headers ih =>
      rw [List.foldl_cons, h header (by simp)]
      exact ih fun other hother => h other (by simp [hother])

/-- A header stays in ground pieces if no number ends it. No literal is among those in front. -/
theorem resolveName_ground {header : String} (hheader : isSearchable header = true) (scope : Scope)
    (front : List Piece) {ps : List Piece}
    (hfront : ∀ p ∈ front, p.IsGround ∧ p.isLiteral = false) (hps : ∀ p ∈ ps, p.IsGround)
    (hnumbers : NoNumberEnds header.toList [] (front ++ ps)) :
    resolveName scope (textOf (front ++ ps)) header = textOf (front ++ ps) := by
  have hname := bounded_of_isSearchable hheader
  induction ps generalizing front with
  | nil =>
      rw [List.append_nil] at hnumbers ⊢
      rw [resolveName, editUnquoted_eq_self_of_unquoted _ (unquoted_ground hfront) rfl,
        replaceReferences_eq, replaceAll_textOf hname hfront hnumbers]
  | cons p ps ih =>
      have hmore : ∀ q ∈ ps, q.IsGround := fun q hq => hps q (by simp [hq])
      cases hliteral : p.isLiteral with
      | false =>
          have hnext := ih (front ++ [p]) ?_ hmore (by simpa using hnumbers)
          · simpa using hnext
          · intro q hq
            rcases List.mem_append.1 hq with hq | hq
            · exact hfront q hq
            · obtain rfl := List.mem_singleton.1 hq
              exact ⟨hps q (by simp), hliteral⟩
      | true =>
          cases p with
          | literal value =>
              rw [noNumberEnds_append fun q hq => (hfront q hq).2] at hnumbers
              have hrest := ih [] (by simp) hmore hnumbers.2
              rw [resolveName, List.nil_append] at hrest
              rw [textOf_append, textOf_cons, ← List.append_assoc, resolveName, Piece.text,
                editUnquoted_append_quote _ (unquoted_ground hfront) rfl, hrest,
                replaceReferences_eq, replaceAll_textOf hname hfront hnumbers.1]
          | _ => cases hliteral

section

variable {header : String} (hheader : isSearchable header = true) {n : Nat}
include hheader

theorem not_endsWith_row : ¬EndsWith header.toList ([',', ' '] ++ Number.digitsOf n) := by
  rintro ⟨x, hx, -⟩
  refine not_infix_signed hheader (a := [',', ' ']) (b := []) (by decide +kernel) (by simp) false
    (.ofNat n) ?_
  rw [Number.Numeral.text_ofNat, List.append_nil]
  exact ⟨x, [], by simpa [Number.signed] using hx.symm⟩

end

/-! ### All passes -/

section

variable {ps : List Piece} (hchain : ps.IsChain Piece.Adjacent) (hvalid : ∀ p ∈ ps, p.Valid)
include hchain hvalid

/-- A pass stays without effect if it finds nothing where a name ends. -/
theorem editUnquoted_names {α : Type} {find : Pattern α} (hword : WordPattern find)
    (hspares : Spares find) (form : Option Char → α → List Char → Option (List Char))
    (hnone : ∀ w, IsName w → ∀ before rest, rest.head?.any Text.isWordChar = false →
      rest.head? ≠ some ':' → find before (w ++ rest) = none)
    (hranges : ∀ r, .reference r ∈ ps → r.isRange = false) :
    editUnquoted (replaceReferences find form) (textOf ps) = textOf ps := by
  have hpass : editUnquoted (replaceReferences find form) (textOf ps) =
      textOf (ps.flatMap fun p => [p]) := by
    refine editUnquoted_references hchain hvalid hword hspares (fun _ _ => rfl) ?_ ?_
    · intro name hname before rest found tail hfound
      rw [hnone name hname before _ rfl (by simp)] at hfound
      cases hfound
    · intro r hmem hr
      have hname := r.isName_text hr (hranges r hmem)
      exact writesPiece_kept hword hname rfl fun before rest hrest =>
        hnone _ hname before rest hrest.word hrest.colon
  rwa [List.flatMap_singleton'] at hpass

theorem resolveCells_resolved (hresolved : ∀ r, .reference r ∉ ps) (scope : Scope) :
    editUnquoted (resolveCells scope) (textOf ps) = textOf ps := by
  have hpass : editUnquoted (resolveCells scope) (textOf ps) =
      textOf (ps.flatMap fun p => [p]) := by
    refine editUnquoted_references hchain hvalid wordPattern_cellReference spares_cellReference
      (fun _ _ => rfl) ?_ fun r hr => absurd hr (hresolved r)
    intro callee hname before rest found tail hfound
    exact rest_of_cellReference hname.all rfl hfound
  rwa [List.flatMap_singleton'] at hpass

theorem resolveLetterRanges_resolved (hresolved : ∀ r, .reference r ∉ ps) (scope : Scope) :
    editUnquoted (resolveLetterRanges scope) (textOf ps) = textOf ps :=
  editUnquoted_names hchain hvalid wordPattern_letterRange spares_letterRange _
    (fun _ hw _ _ hrest hcolon => letterRange_eq_none hw.all hrest hcolon)
    fun r hr => absurd hr (hresolved r)

/-- Where no references are left, only headers are looked for. -/
theorem resolve_resolved (hresolved : ∀ r, .reference r ∉ ps) (scope : Scope) :
    resolve scope (textOf ps) = resolveNames scope (textOf ps) := by
  have hnames : editUnquoted (resolveNameRanges scope) (textOf ps) = textOf ps :=
    editUnquoted_names hchain hvalid wordPattern_nameRange spares_nameRange _
      (fun _ hw _ _ hrest hcolon => nameRange_eq_none hw hrest hcolon)
      fun r hr => absurd hr (hresolved r)
  simp only [resolve, hnames, resolveLetterRanges_resolved hchain hvalid hresolved,
    resolveCells_resolved hchain hvalid hresolved]

end

/-- Ground pieces stay if no number in them ends a header. -/
theorem resolve_ground {ps : List Piece} (hoperand : IsOperand ps) (hground : ∀ p ∈ ps, p.IsGround)
    {scope : Scope} (h : ∀ header ∈ searchedNames scope.schema, NoNumberEnds header.toList [] ps) :
    resolve scope (textOf ps) = textOf ps := by
  rw [resolve_resolved hoperand.chain (fun p hp => (hground p hp).valid)
    (fun r hr => (hground _ hr).ne_reference r rfl), resolveNames_eq]
  refine foldl_resolveName_eq_self fun header hheader => ?_
  exact resolveName_ground (isSearchable_of_mem_searchedNames hheader) scope [] (by simp) hground
    (h header hheader)

end SheetBoard.Formula
