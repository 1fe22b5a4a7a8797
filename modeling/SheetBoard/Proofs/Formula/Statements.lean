import SheetBoard.Proofs.Formula.Calls

/-! Statements in pieces. Each pass writes the calls of one keyword as statements, the outer ones
before those in their arguments, and so turns the pieces of a tree into pieces of the same tree. -/

namespace SheetBoard.Formula

/-! ### The text of an operand -/

theorem any_eq_false_of_any {α : Type} {p q : α → Bool} {x : Option α} (hx : x.any p = true)
    (h : ∀ a, p a = true → q a = false) : x.any q = false := by
  cases x with
  | none => rfl
  | some a => exact h a hx

/-- The text of an operand has no blanks at its ends. -/
theorem IsOperand.trim_textOf {ps : List Piece} (h : IsOperand ps)
    (hlegible : ∀ p ∈ ps, p.Legible) : Text.trim (textOf ps) = textOf ps := by
  refine Text.trim_eq_self ?_ ?_
  · cases ps with
    | nil => rfl
    | cons p ps =>
        have hp := hlegible p (by simp)
        rw [textOf_cons, List.head?_append_of_ne_nil _ hp.text_ne_nil]
        by_cases hsign : p = .mark .negation
        · subst hsign
          decide
        · exact any_eq_false_of_any (hp.opens (h.starts_of_mem rfl) hsign)
            fun _ => isBlank_of_opensOperand
  · rcases List.eq_nil_or_concat ps with rfl | ⟨front, p, rfl⟩
    · rfl
    · rw [List.concat_eq_append] at h hlegible ⊢
      have hp := hlegible p (by simp)
      rw [textOf_append, textOf_cons, textOf_nil, List.append_nil,
        List.getLast?_append_of_ne_nil _ hp.text_ne_nil]
      exact any_eq_false_of_any (hp.closes (h.ends_of_mem (by simp)))
        fun _ => isBlank_of_closesOperand

theorem IsOperand.textOf_ne_nil {ps : List Piece} (h : IsOperand ps)
    (hlegible : ∀ p ∈ ps, p.Legible) : textOf ps ≠ [] := by
  cases ps with
  | nil => exact absurd rfl h.ne_nil
  | cons p ps => simp [(hlegible p (by simp)).text_ne_nil]

/-! ### Phrases -/

/-- The valid pieces of an operand. They may start with a sign only if `signed` is true. -/
structure Phrase (signed : Bool) (ps : List Piece) : Prop where
  operand : IsOperand ps
  sign : ps.head? = some (.mark .negation) → signed = true
  valid : ∀ p ∈ ps, p.Valid

namespace Phrase

variable {s t : Bool} {ps qs : List Piece}

theorem any (h : Phrase s ps) : Phrase true ps := ⟨h.operand, fun _ => rfl, h.valid⟩

theorem single {p : Piece} (hstarts : p.starts = true) (hends : p.ends = true)
    (hsign : p ≠ .mark .negation) (hp : p.Valid) : Phrase s [p] where
  operand := .single hstarts hends
  sign hhead := absurd (by simpa using hhead) hsign
  valid := by simpa using hp

theorem legible (h : Phrase s ps) : ∀ p ∈ ps, p.Legible := fun p hp => (h.valid p hp).legible

theorem group {p : Piece} (hstarts : p.starts = true) (hopens : p.opens = true) (hp : p.Valid)
    (h : Phrase s ps) : Phrase t (p :: ps ++ [.mark .right]) where
  operand := .group hstarts hopens (.inr h.operand)
  sign := by
    intro hhead
    obtain rfl : p = .mark .negation := by simpa using hhead
    cases hopens
  valid := by
    intro q hq
    rcases (by simpa using hq : q = p ∨ q ∈ ps ∨ q = .mark .right) with rfl | hq | rfl
    · exact hp
    · exact h.valid q hq
    · trivial

theorem enclosed (h : Phrase s ps) : Phrase t (enclosed ps) := group rfl rfl trivial h

theorem negated (h : Phrase s ps) : Phrase true (.mark .negation :: ps) where
  operand := h.operand.negated
  sign _ := rfl
  valid := by
    intro q hq
    rcases List.mem_cons.1 hq with rfl | hq
    · trivial
    · exact h.valid q hq

theorem infixed (hps : Phrase s ps) (hqs : Phrase t qs) {m : Mark} (hfollows : m.follows = true)
    (hright : m ≠ .right) (hconcat : m = .operator .concat → t = false) :
    Phrase s (ps ++ .mark m :: qs) where
  operand := by
    refine hps.operand.infixed hqs.operand hfollows hright fun hm hhead => ?_
    have hsign := hqs.sign hhead
    rw [hconcat hm] at hsign
    cases hsign
  sign := by
    rw [List.head?_append_of_ne_nil _ hps.operand.ne_nil]
    exact hps.sign
  valid := by
    intro p hp
    rcases (by simpa using hp : p ∈ ps ∨ p = .mark m ∨ p ∈ qs) with hp | rfl | hp
    · exact hps.valid p hp
    · trivial
    · exact hqs.valid p hp

end Phrase

/-! ### One call -/

/-- What a keyword makes of the arguments of its call. -/
def Keyword.form : Keyword → List (List Char) → Option (List Char)
  | .choice => ifForm
  | .conjunction => chainForm " and ".toList
  | .disjunction => chainForm " or ".toList

theorem Keyword.form_textOf {k : Keyword} {arguments : List (List Piece)}
    (h : k.Admits arguments.length) :
    k.form (arguments.map textOf) = some (textOf (k.join arguments)) := by
  cases k with
  | choice =>
      obtain ⟨condition, yes, no, rfl⟩ := List.length_eq_three.1 h
      simp [form, ifForm, join, Piece.text, Mark.text, Particle.word]
  | conjunction =>
      have hlength : ¬(arguments.map textOf).length < 2 := by
        rw [List.length_map]
        exact Nat.not_lt.2 h
      rw [form, chainForm, if_neg hlength, join, textOf_intercalate]
      rfl
  | disjunction =>
      have hlength : ¬(arguments.map textOf).length < 2 := by
        rw [List.length_map]
        exact Nat.not_lt.2 h
      rw [form, chainForm, if_neg hlength, join, textOf_intercalate]
      rfl

/-- After `n` rounds the text `x` has become `y`. -/
def Writes (k : Keyword) (n : Nat) (x y : List Char) : Prop :=
  ∀ fuel, writeCalls k.spelling k.form (n + fuel) x = writeCalls k.spelling k.form fuel y

theorem Writes.refl (k : Keyword) (x : List Char) : Writes k 0 x x := by
  intro fuel
  rw [Nat.zero_add]

theorem Writes.trans {k : Keyword} {n m : Nat} {x y z : List Char} (h : Writes k n x y)
    (h' : Writes k m y z) : Writes k (n + m) x z := by
  intro fuel
  rw [Nat.add_assoc, h, h']

/-- Operands may stand between the pieces of a frame, and no call comes before them. -/
structure Frame (k : Keyword) (signed : Bool) (before after : List Piece) : Prop where
  chain : ∀ ps, Phrase signed ps → (before ++ ps ++ after).IsChain Piece.Adjacent
  clear : ∀ p ∈ before, p.calls k = false
  valid : ∀ p ∈ before, p.Valid

/-- One round writes the first call as a statement. -/
theorem Frame.writes_call {k : Keyword} {s t : Bool} {before after : List Piece}
    (hframe : Frame k s before after) {name : List Char} {arguments : List (List Piece)}
    (hname : IsName name) (hspelling : name.map Char.toUpper = k.spelling)
    (hadmits : k.Admits arguments.length)
    (hphrase : Phrase s (.callee name :: [.mark .comma].intercalate arguments ++ [.mark .right]))
    (harguments : ∀ a ∈ arguments, Phrase t a ∧ Nested 0 (textOf a)) :
    Writes k 1
      (textOf (before ++ (.callee name :: [.mark .comma].intercalate arguments ++ [.mark .right]) ++
        after))
      (textOf (before ++ enclosed (k.join arguments) ++ after)) := by
  intro fuel
  have hchain := hframe.chain _ hphrase
  have hshape : before ++ (Piece.callee name :: [.mark .comma].intercalate arguments ++
      [.mark .right]) ++ after = before ++ (Piece.callee name ::
        ([.mark .comma].intercalate arguments ++ .mark .right :: after)) := by simp
  rw [hshape] at hchain ⊢
  have htrim : (arguments.map textOf).map Text.trim = arguments.map textOf := by
    rw [List.map_map]
    refine List.map_congr_left fun a ha => ?_
    exact (harguments a ha).1.operand.trim_textOf (harguments a ha).1.legible
  have hfound := leftmostCall?_callee hchain hframe.valid hframe.clear hname hspelling
    fun a ha => ⟨(harguments a ha).2,
      (harguments a ha).1.operand.textOf_ne_nil (harguments a ha).1.legible⟩
  rw [Nat.add_comm, writeCalls]
  simp only [hfound, htrim, Keyword.form_textOf hadmits]
  simp [enclosed, Piece.text, Mark.text]

/-! ### Calls within pieces -/

/-- The pass turns `ps` into `qs` wherever they stand, in one round for each call. -/
structure Rewrites (k : Keyword) (signed : Bool) (ps qs : List Piece) : Prop where
  source : Phrase signed ps
  target : Phrase signed qs
  clear : ∀ q ∈ qs, q.calls k = false
  writes : ∀ {before after}, Frame k signed before after →
    Writes k (ps.countP (Piece.calls k)) (textOf (before ++ ps ++ after))
      (textOf (before ++ qs ++ after))

namespace Rewrites

variable {k : Keyword} {s t : Bool} {ps qs rs us : List Piece}

theorem any (h : Rewrites k s ps qs) : Rewrites k true ps qs where
  source := h.source.any
  target := h.target.any
  clear := h.clear
  writes hframe := h.writes ⟨fun ps hps => hframe.chain ps hps.any, hframe.clear, hframe.valid⟩

theorem refl (h : Phrase s ps) (hclear : ∀ p ∈ ps, p.calls k = false) : Rewrites k s ps ps where
  source := h
  target := h
  clear := hclear
  writes := by
    intro before after _
    rw [List.countP_eq_zero.2 fun p hp => by simp [hclear p hp]]
    exact .refl k _

theorem group {p : Piece} (hstarts : p.starts = true) (hopens : p.opens = true) (hp : p.Valid)
    (hcalls : p.calls k = false) (h : Rewrites k s ps qs) :
    Rewrites k t (p :: ps ++ [.mark .right]) (p :: qs ++ [.mark .right]) where
  source := h.source.group hstarts hopens hp
  target := h.target.group hstarts hopens hp
  clear := by
    intro q hq
    rcases (by simpa using hq : q = p ∨ q ∈ qs ∨ q = .mark .right) with rfl | hq | rfl
    · exact hcalls
    · exact h.clear q hq
    · rfl
  writes := by
    intro before after hframe
    have hinner : Frame k s (before ++ [p]) (.mark .right :: after) := by
      refine ⟨fun us hus => ?_, ?_, ?_⟩
      · simpa using hframe.chain _ (hus.group hstarts hopens hp)
      · simpa [or_imp, forall_and, hcalls] using hframe.clear
      · simpa [or_imp, forall_and, hp] using hframe.valid
    simpa [List.countP_cons, hcalls] using h.writes hinner

theorem enclosed (h : Rewrites k s ps qs) : Rewrites k t (enclosed ps) (enclosed qs) :=
  group rfl rfl trivial rfl h

theorem negated (h : Rewrites k s ps qs) :
    Rewrites k true (.mark .negation :: ps) (.mark .negation :: qs) where
  source := h.source.negated
  target := h.target.negated
  clear := by simpa using h.clear
  writes := by
    intro before after hframe
    have hinner : Frame k s (before ++ [.mark .negation]) after := by
      refine ⟨fun us hus => ?_, ?_, ?_⟩
      · simpa using hframe.chain _ hus.negated
      · simpa [or_imp, forall_and] using hframe.clear
      · simpa [or_imp, forall_and, Piece.Valid] using hframe.valid
    simpa using h.writes hinner

theorem infixed (hleft : Rewrites k s ps qs) (hright : Rewrites k t rs us) {m : Mark}
    (hfollows : m.follows = true) (hm : m ≠ .right) (hconcat : m = .operator .concat → t = false) :
    Rewrites k s (ps ++ .mark m :: rs) (qs ++ .mark m :: us) where
  source := hleft.source.infixed hright.source hfollows hm hconcat
  target := hleft.target.infixed hright.target hfollows hm hconcat
  clear := by
    intro q hq
    rcases (by simpa using hq : q ∈ qs ∨ q = .mark m ∨ q ∈ us) with hq | rfl | hq
    · exact hleft.clear q hq
    · rfl
    · exact hright.clear q hq
  writes := by
    intro before after hframe
    -- The left operand is written first, and then stands before the right one.
    have hfirst : Frame k s before (.mark m :: rs ++ after) := by
      refine ⟨fun vs hvs => ?_, hframe.clear, hframe.valid⟩
      simpa using hframe.chain _ (hvs.infixed hright.source hfollows hm hconcat)
    have hsecond : Frame k t (before ++ qs ++ [.mark m]) after := by
      refine ⟨fun vs hvs => ?_, ?_, ?_⟩
      · simpa using hframe.chain _ (hleft.target.infixed hvs hfollows hm hconcat)
      · intro p hp
        rcases (by simpa using hp : p ∈ before ∨ p ∈ qs ∨ p = .mark m) with hp | hp | rfl
        · exact hframe.clear p hp
        · exact hleft.clear p hp
        · rfl
      · intro p hp
        rcases (by simpa using hp : p ∈ before ∨ p ∈ qs ∨ p = .mark m) with hp | hp | rfl
        · exact hframe.valid p hp
        · exact hleft.target.valid p hp
        · trivial
    have hboth := (hleft.writes hfirst).trans
      (by simpa using hright.writes hsecond : Writes k (rs.countP (Piece.calls k))
        (textOf (before ++ qs ++ (.mark m :: rs ++ after))) _)
    simpa using hboth

section

variable {α : Type} {f g : α → List Piece} {xs : List α}

theorem intercalate (h : ∀ x ∈ xs, Rewrites k true (f x) (g x)) (hxs : xs ≠ []) {m : Mark}
    (hfollows : m.follows = true) (hm : m ≠ .right) (hconcat : m ≠ .operator .concat) :
    Rewrites k true ([.mark m].intercalate (xs.map f)) ([.mark m].intercalate (xs.map g)) := by
  induction xs with
  | nil => exact absurd rfl hxs
  | cons x xs ih =>
      have hx := h x (by simp)
      cases xs with
      | nil => simpa using hx
      | cons y ys =>
          have hrest := ih (fun z hz => h z (List.mem_cons_of_mem x hz)) (by simp)
          simpa using hx.infixed hrest hfollows hm fun hc => absurd hc hconcat

/-- Within a statement that was written before. -/
theorem join (h : ∀ x ∈ xs, Rewrites k true (f x) (g x)) (hxs : xs ≠ []) (j : Keyword) :
    Rewrites k true (j.join (xs.map f)) (j.join (xs.map g)) := by
  cases j with
  | conjunction => exact intercalate h hxs rfl (by simp) (by simp)
  | disjunction => exact intercalate h hxs rfl (by simp) (by simp)
  | choice =>
      by_cases hthree : ∃ a b c, xs = [a, b, c]
      · obtain ⟨a, b, c, rfl⟩ := hthree
        have hwhen := (h b (by simp)).infixed (h a (by simp)) (m := .particle .ifWord) rfl (by simp)
          (by simp)
        exact hwhen.infixed (h c (by simp)) (m := .particle .elseWord) rfl (by simp) (by simp)
      · have hplain : ∀ f : α → List Piece,
            Keyword.choice.join (xs.map f) = [.mark .comma].intercalate (xs.map f) := by
          intro f
          unfold Keyword.join
          split
          · rename_i hmap
            obtain ⟨a, b, c, hxs⟩ :=
              List.length_eq_three.1 (by simpa using congrArg List.length hmap)
            exact absurd ⟨a, b, c, hxs⟩ hthree
          · rfl
          · rename_i heq
            cases heq
          · rename_i heq
            cases heq
        rw [hplain, hplain]
        exact intercalate h hxs rfl (by simp) (by simp)

theorem countP_intercalate (m : Mark) (pss : List (List Piece)) :
    ([.mark m].intercalate pss).countP (Piece.calls k) = pss.flatten.countP (Piece.calls k) := by
  induction pss with
  | nil => rfl
  | cons ps pss ih =>
      cases pss with
      | nil => simp
      | cons qs pss =>
          rw [List.flatten_cons, List.countP_append, ← ih]
          simp

theorem countP_join (j : Keyword) (pss : List (List Piece)) :
    (j.join pss).countP (Piece.calls k) = pss.flatten.countP (Piece.calls k) := by
  unfold Keyword.join
  split
  · simp only [List.countP_append, List.countP_cons, Piece.calls_mark, List.flatten_cons,
      List.flatten_nil, List.countP_nil, Bool.false_eq_true, if_false]
    omega
  all_goals exact countP_intercalate _ _

/-- A call of the keyword becomes a statement, and then its arguments are written. -/
theorem statement {name : List Char} (hname : IsName name)
    (hspelling : name.map Char.toUpper = k.spelling) (hadmits : k.Admits xs.length)
    (h : ∀ x ∈ xs, Rewrites k true (f x) (g x)) (hnested : ∀ x ∈ xs, Nested 0 (textOf (f x))) :
    Rewrites k s (.callee name :: [.mark .comma].intercalate (xs.map f) ++ [.mark .right])
      (Formula.enclosed (k.join (xs.map g))) := by
  have hxs : xs ≠ [] := by
    rintro rfl
    cases k <;> simp [Keyword.Admits] at hadmits
  have hcommas : Rewrites k true ([.mark .comma].intercalate (xs.map f))
      ([.mark .comma].intercalate (xs.map g)) := intercalate h hxs rfl (by simp) (by simp)
  have hwritten : Rewrites k s (Formula.enclosed (k.join (xs.map f)))
      (Formula.enclosed (k.join (xs.map g))) := (join h hxs k).enclosed
  have hsource : Phrase s
      (.callee name :: [.mark .comma].intercalate (xs.map f) ++ [.mark .right]) :=
    hcommas.source.group rfl rfl hname
  refine ⟨hsource, hwritten.target, hwritten.clear, fun hframe => ?_⟩
  have hcall := hframe.writes_call hname hspelling (by simpa using hadmits) hsource (t := true)
    (by simpa using fun x hx => ⟨(h x hx).source, hnested x hx⟩)
  have hboth := hcall.trans (hwritten.writes hframe)
  have hcount : List.countP (Piece.calls k)
      (.callee name :: [.mark .comma].intercalate (xs.map f) ++ [.mark .right]) =
      1 + List.countP (Piece.calls k) (Formula.enclosed (k.join (xs.map f))) := by
    simp [Formula.enclosed, countP_intercalate, countP_join, Piece.calls, hspelling, Nat.add_comm]
  rw [hcount]
  exact hboth

end

end Rewrites

/-! ### The pieces of a tree, one by one -/

theorem mem_intercalate {α : Type} {sep : List α} {xss : List (List α)} {x : α}
    (h : x ∈ sep.intercalate xss) : x ∈ sep ∨ ∃ xs ∈ xss, x ∈ xs := by
  induction xss with
  | nil => cases h
  | cons xs xss ih =>
      cases xss with
      | nil => exact .inr ⟨xs, by simp, by simpa using h⟩
      | cons ys xss =>
          rcases (by simpa using h : x ∈ xs ∨ x ∈ sep ∨ x ∈ sep.intercalate (ys :: xss)) with
            h | h | h
          · exact .inr ⟨xs, by simp, h⟩
          · exact .inl h
          · exact (ih h).imp_right fun ⟨zs, hzs, hx⟩ => ⟨zs, List.mem_cons_of_mem xs hzs, hx⟩

theorem mem_operandPieces {compound : Bool} {ps : List Piece} {p : Piece}
    (h : p ∈ operandPieces compound ps) : p = .mark .left ∨ p ∈ ps ∨ p = .mark .right := by
  cases compound with
  | false => exact .inr (.inl h)
  | true => simpa [operandPieces, enclosed] using h

/-- The marks that a tree is written with: the operators of formulas, and the words of statements
where some are written. -/
def Mark.Formal (done : Keyword → Bool) (m : Mark) : Prop :=
  (∀ op, m ≠ .scriptOperator op) ∧ ∀ p, m = .particle p → ∃ k, done k = true

section

variable {P : Piece → Prop} {done : Keyword → Bool}
  (hmark : ∀ m : Mark, m.Formal done → P (.mark m))

include hmark

theorem Keyword.forall_mem_join {j : Keyword} (hj : done j = true) {pss : List (List Piece)}
    (h : ∀ ps ∈ pss, ∀ p ∈ ps, P p) : ∀ p ∈ j.join pss, P p := by
  have hword : ∀ w, P (.mark (.particle w)) := fun w => hmark _ ⟨by simp, fun _ _ => ⟨j, hj⟩⟩
  have hcomma : P (.mark .comma) := hmark _ ⟨by simp, by simp⟩
  have hintercalate : ∀ m, P (.mark m) → ∀ p ∈ [Piece.mark m].intercalate pss, P p := by
    intro m hm p hp
    rcases mem_intercalate hp with hp | ⟨ps, hps, hp⟩
    · obtain rfl := List.mem_singleton.1 hp
      exact hm
    · exact h ps hps p hp
  unfold Keyword.join
  split
  · intro p hp
    simp only [List.mem_append, List.mem_cons] at hp
    rcases hp with (hp | rfl | hp) | rfl | hp
    · exact h _ (by simp) p hp
    · exact hword _
    · exact h _ (by simp) p hp
    · exact hword _
    · exact h _ (by simp) p hp
  · exact hintercalate _ hcomma
  · exact hintercalate _ (hword _)
  · exact hintercalate _ (hword _)

/-- A property of the pieces that a tree is written with holds of all its pieces. -/
theorem Tree.forall_mem_pieces {reference : Ref → Prop} {call : Identifier → List Tree → Prop}
    (hnumeral : ∀ n : Number.Numeral, P (.numeral n.text)) (hliteral : ∀ s, P (.literal s))
    (htruth : ∀ b, P (.truth true b)) (hreference : ∀ r, reference r → P (.reference r))
    (hcallee : ∀ name : Identifier, P (.callee name.chars)) {e : Tree}
    (h : e.All reference call) : ∀ p ∈ e.pieces done, P p := by
  have hplain : ∀ m : Mark, (∀ op, m ≠ .scriptOperator op) → (∀ p, m ≠ .particle p) →
      P (.mark m) := fun m hop hword => hmark m ⟨hop, fun p hp => absurd hp (hword p)⟩
  have hoperand : ∀ (compound : Bool) (ps : List Piece), (∀ p ∈ ps, P p) →
      ∀ p ∈ operandPieces compound ps, P p := by
    intro compound ps hps p hp
    rcases mem_operandPieces hp with rfl | hp | rfl
    · exact hplain _ (by simp) (by simp)
    · exact hps p hp
    · exact hplain _ (by simp) (by simp)
  have henclosed := hoperand true
  induction e with
  | number n => simpa [pieces] using hnumeral n
  | text s => simpa [pieces] using hliteral s.toList
  | boolean b => simpa [pieces] using htruth b
  | reference r =>
      rw [All] at h
      simpa [pieces] using hreference r h
  | negate e ih =>
      rw [All] at h
      rw [pieces, List.forall_mem_cons]
      exact ⟨hplain _ (by simp) (by simp), hoperand _ _ (ih h)⟩
  | binary op l r ihl ihr =>
      rw [All] at h
      rw [pieces, List.forall_mem_append, List.forall_mem_cons]
      exact ⟨hoperand _ _ (ihl h.1), hplain _ (by simp) (by simp), hoperand _ _ (ihr h.2)⟩
  | call name arguments ih =>
      rw [All] at h
      have hall : ∀ ps ∈ arguments.map (fun a => a.pieces done), ∀ p ∈ ps, P p := by
        simpa using fun a ha => ih a ha (h.2 a ha)
      rw [pieces, callPieces]
      split
      · rename_i k hk
        exact henclosed _ (Keyword.forall_mem_join hmark (Option.filter_eq_some_iff.1 hk).2 hall)
      · intro p hp
        rcases (by simpa using hp : p = .callee name.chars ∨
            p ∈ [Piece.mark .comma].intercalate (arguments.map fun a => a.pieces done) ∨
              p = .mark .right) with rfl | hp | rfl
        · exact hcallee name
        · rcases mem_intercalate hp with hp | ⟨ps, hps, hp⟩
          · obtain rfl := List.mem_singleton.1 hp
            exact hplain _ (by simp) (by simp)
          · exact hall ps hps p hp
        · exact hplain _ (by simp) (by simp)
  | paren e ih =>
      rw [All] at h
      rw [pieces]
      exact henclosed _ (ih h)

end

theorem Tree.valid_pieces {done : Keyword → Bool} {call : Identifier → List Tree → Prop} {e : Tree}
    (h : e.All Ref.IsPlain call) : ∀ p ∈ e.pieces done, p.Valid :=
  forall_mem_pieces (fun _ _ => trivial) (fun n => ⟨n, rfl⟩) (fun _ => trivial) (fun _ => trivial)
    (fun _ hr => hr) (fun name => name.isName) h

theorem Tree.formal_of_mem {done : Keyword → Bool} {reference : Ref → Prop}
    {call : Identifier → List Tree → Prop} {e : Tree} (h : e.All reference call) {m : Mark}
    (hm : .mark m ∈ e.pieces done) : m.Formal done := by
  have hall : ∀ p ∈ e.pieces done, ∀ m, p = .mark m → m.Formal done := by
    refine forall_mem_pieces ?_ (by simp) (by simp) (by simp) (by simp) (by simp) h
    rintro m hm _ ⟨⟩
    exact hm
  exact hall _ hm m rfl

theorem Tree.reference_of_mem {done : Keyword → Bool} {reference : Ref → Prop}
    {call : Identifier → List Tree → Prop} {e : Tree} (h : e.All reference call) {r : Ref}
    (hr : .reference r ∈ e.pieces done) : reference r := by
  have hall : ∀ p ∈ e.pieces done, ∀ r, p = .reference r → reference r := by
    refine forall_mem_pieces (by simp) (by simp) (by simp) (by simp) ?_ (by simp) h
    rintro r hr _ ⟨⟩
    exact hr
  exact hall _ hr r rfl

/-! ### Nesting -/

theorem nested_of_isNameChar {depth : Nat} {cs : List Char}
    (h : ∀ c ∈ cs, isNameChar c = true ∨ c = '.') : Nested depth cs := by
  refine .plain fun c hc => ?_
  rcases h c hc with hname | rfl
  · exact ⟨isQuote_of_isNameChar hname, ne_of_isNameChar hname (by decide),
      ne_of_isNameChar hname (by decide), ne_of_isNameChar hname (by decide)⟩
  · decide

theorem IsName.nested {depth : Nat} {cs : List Char} (h : IsName cs) : Nested depth cs :=
  nested_of_isNameChar h.isMember.all

theorem Ref.nested_text {depth : Nat} {r : Ref} (h : r.IsPlain) : Nested depth r.text := by
  cases r with
  | cell letters row => exact (IsName.cell letters row).nested
  | range letters first last =>
      have hcolon : Nested depth [':'] := .plain (by decide)
      exact (IsName.row letters first).nested.append
        (hcolon.append (IsName.row letters last).nested)
  | header name => exact h.1.nested

theorem Particle.nested_text {depth : Nat} (p : Particle) :
    Nested depth (textOf [.mark (.particle p)]) := by
  cases p <;> exact .plain (by decide)

theorem Operator.nested_text {depth : Nat} (op : Operator) : Nested depth op.text := by
  cases op <;> exact .plain (by decide)

theorem Nested.enclosed {depth : Nat} {ps : List Piece} (h : Nested (depth + 1) (textOf ps)) :
    Nested depth (textOf (enclosed ps)) := by
  rw [textOf_enclosed]
  exact h.group

theorem Nested.operandPieces {ps : List Piece} (h : ∀ depth, Nested depth (textOf ps))
    (compound : Bool) (depth : Nat) : Nested depth (textOf (operandPieces compound ps)) := by
  cases compound with
  | false => exact h depth
  | true => exact (h (depth + 1)).enclosed

theorem Nested.textOf_intercalate {depth : Nat} {sep : List Piece}
    (hsep : Nested depth (textOf sep)) {pss : List (List Piece)}
    (h : ∀ ps ∈ pss, Nested depth (textOf ps)) : Nested depth (textOf (sep.intercalate pss)) := by
  rw [Formula.textOf_intercalate]
  exact .intercalate hsep (by simpa using h)

theorem Nested.join {depth : Nat} (j : Keyword) {pss : List (List Piece)}
    (h : ∀ ps ∈ pss, Nested (depth + 1) (textOf ps)) :
    Nested (depth + 1) (textOf (j.join pss)) := by
  have hcomma : Nested (depth + 1) (textOf [.mark .comma]) :=
    .char rfl (by decide) (by decide) fun _ => by omega
  unfold Keyword.join
  split
  · rename_i condition yes no
    have hword : ∀ p : Particle, Nested (depth + 1) (textOf [.mark (.particle p)]) :=
      Particle.nested_text
    have hwhen := ((h yes (by simp)).append (hword .ifWord)).append (h condition (by simp))
    simpa using (hwhen.append (hword .elseWord)).append (h no (by simp))
  · exact .textOf_intercalate hcomma h
  · exact .textOf_intercalate (Particle.nested_text .andWord) h
  · exact .textOf_intercalate (Particle.nested_text .orWord) h

/-- The parentheses of a tree match, and its commas stand within them. -/
theorem Tree.nested_pieces {done : Keyword → Bool} {call : Identifier → List Tree → Prop} {e : Tree}
    (h : e.All Ref.IsPlain call) (depth : Nat) : Nested depth (textOf (e.pieces done)) := by
  induction e generalizing depth with
  | number n =>
      have hdigits : ∀ c ∈ n.text, isNameChar c = true ∨ c = '.' := fun c hc =>
        (isDigit_or_point_of_isNumeral ⟨n, rfl⟩ c hc).imp_left isNameChar_of_isDigit
      simpa [pieces, Piece.text] using (nested_of_isNameChar hdigits : Nested depth n.text)
  | text s =>
      simpa [pieces, Piece.text] using (Nested.quote s.toList : Nested depth (quote s.toList))
  | boolean b =>
      rw [pieces]
      cases b <;> exact .plain (by decide)
  | reference r =>
      rw [All] at h
      simpa [pieces, Piece.text] using (Ref.nested_text h : Nested depth r.text)
  | negate e ih =>
      rw [All] at h
      have hsign : Nested depth (Piece.mark .negation).text := .plain (by decide)
      rw [pieces, textOf_cons]
      exact hsign.append (.operandPieces (ih h) _ _)
  | binary op l r ihl ihr =>
      rw [All] at h
      rw [pieces, textOf_append, textOf_cons]
      exact (Nested.operandPieces (ihl h.1) _ _).append
        (op.nested_text.append (.operandPieces (ihr h.2) _ _))
  | call name arguments ih =>
      rw [All] at h
      have harguments : ∀ ps ∈ arguments.map (fun a => a.pieces done),
          Nested (depth + 1) (textOf ps) := by
        simpa using fun a ha => ih a ha (h.2 a ha) (depth + 1)
      rw [pieces, callPieces]
      split
      · exact (Nested.join _ harguments).enclosed
      · have hcomma : Nested (depth + 1) (textOf [.mark .comma]) :=
          .char rfl (by decide) (by decide) fun _ => by omega
        have hgroup := (Nested.textOf_intercalate hcomma harguments).group
        simpa [Piece.text, Mark.text] using name.isName.nested.append hgroup
  | paren e ih =>
      rw [All] at h
      rw [pieces]
      exact (ih h _).enclosed

/-! ### Trees -/

/-- The number of arguments of each call suits its keyword, if it has one. -/
def Tree.Stated (e : Tree) : Prop :=
  e.All Ref.IsPlain fun name arguments => ∀ k ∈ keyword? name.chars, k.Admits arguments.length

theorem Rewrites.operandPieces {k : Keyword} {compound : Bool} {ps qs : List Piece}
    (h : Rewrites k compound ps qs) :
    Rewrites k false (operandPieces compound ps) (operandPieces compound qs) := by
  cases compound with
  | false => exact h
  | true => exact h.enclosed

/-- A call that is no call of the keyword stays one. -/
theorem Rewrites.call {k : Keyword} {s : Bool} {name : List Char} (hname : IsName name)
    (hspelling : name.map Char.toUpper ≠ k.spelling) {α : Type} {f g : α → List Piece} {xs : List α}
    (h : ∀ x ∈ xs, Rewrites k true (f x) (g x)) :
    Rewrites k s (.callee name :: [.mark .comma].intercalate (xs.map f) ++ [.mark .right])
      (.callee name :: [.mark .comma].intercalate (xs.map g) ++ [.mark .right]) := by
  have hcalls : (Piece.callee name).calls k = false := by simpa [Piece.calls] using hspelling
  by_cases hxs : xs = []
  · subst hxs
    refine .refl ⟨.group rfl rfl (.inl rfl), by simp, ?_⟩ ?_
    · simpa [Piece.Valid] using hname
    · simpa using hcalls
  · exact .group rfl rfl hname hcalls (.intercalate h hxs rfl (by simp) (by simp))

/-- Each pass writes one more keyword. -/
theorem Tree.rewrites {done : Keyword → Bool} {k : Keyword} (hdone : done k = false) {e : Tree}
    (h : e.Stated) :
    Rewrites k e.isOperator (e.pieces done) (e.pieces fun j => done j || j = k) := by
  induction e with
  | number n =>
      rw [pieces, pieces]
      exact .refl (.single rfl rfl (by simp) ⟨n, rfl⟩) (by simp [Piece.calls])
  | text s =>
      rw [pieces, pieces]
      exact .refl (.single rfl rfl (by simp) trivial) (by simp [Piece.calls])
  | boolean b =>
      rw [pieces, pieces]
      exact .refl (.single rfl rfl (by simp) trivial) (by simp [Piece.calls])
  | reference r =>
      have hplain : r.IsPlain := by simpa [Stated, All] using h
      rw [pieces, pieces]
      exact .refl (.single rfl rfl (by simp) hplain) (by simp [Piece.calls])
  | negate e ih =>
      have he : e.Stated := by simpa [Stated, All] using h
      rw [pieces, pieces]
      exact (ih he).operandPieces.negated
  | binary op l r ihl ihr =>
      obtain ⟨hl, hr⟩ : l.Stated ∧ r.Stated := by simpa [Stated, All] using h
      rw [pieces, pieces]
      exact ((ihl hl).operandPieces.infixed (ihr hr).operandPieces rfl (by simp) fun _ => rfl).any
  | call name arguments ih =>
      obtain ⟨hadmits, harguments⟩ : (∀ j ∈ keyword? name.chars, j.Admits arguments.length) ∧
          ∀ a ∈ arguments, a.Stated := by simpa only [Stated, All] using h
      have hrewrites : ∀ a ∈ arguments,
          Rewrites k true (a.pieces done) (a.pieces fun j => done j || j = k) :=
        fun a ha => (ih a ha (harguments a ha)).any
      rw [pieces, pieces, callPieces, callPieces]
      cases hkeyword : keyword? name.chars with
      | none =>
          have hother : name.chars.map Char.toUpper ≠ k.spelling := by
            intro hsame
            rw [keyword?_eq_some_iff.2 hsame] at hkeyword
            cases hkeyword
          exact .call name.isName hother hrewrites
      | some j =>
          have hspelling := keyword?_eq_some_iff.1 hkeyword
          by_cases hj : j = k
          · subst hj
            have hbefore : (some j).filter done = none := by simp [Option.filter, hdone]
            have hafter : (some j).filter (fun i => done i || i = j) = some j := by
              simp [Option.filter]
            rw [hbefore, hafter]
            exact .statement name.isName hspelling (hadmits j hkeyword) hrewrites
              fun a ha => nested_pieces (harguments a ha) 0
          · have hsame : (some j).filter (fun i => done i || i = k) = (some j).filter done := by
              simp [Option.filter, hj]
            rw [hsame]
            cases hj' : done j with
            | true =>
                have hxs : arguments ≠ [] := by
                  rintro rfl
                  have := hadmits j hkeyword
                  cases j <;> simp [Keyword.Admits] at this
                have hfilter : (some j).filter done = some j := by simp [Option.filter, hj']
                rw [hfilter]
                exact (Rewrites.join hrewrites hxs j).enclosed
            | false =>
                have hfilter : (some j).filter done = none := by simp [Option.filter, hj']
                have hother : name.chars.map Char.toUpper ≠ k.spelling := by
                  intro hsame
                  rw [keyword?_eq_some_iff.2 hsame] at hkeyword
                  exact hj (Option.some.inj hkeyword).symm
                rw [hfilter]
                exact .call name.isName hother hrewrites
  | paren e ih =>
      have he : e.Stated := by simpa [Stated, All] using h
      rw [pieces, pieces]
      exact (ih he).enclosed

/-! ### All passes -/

theorem writeCalls_eq_self {k : Keyword} {ps : List Piece} (hchain : ps.IsChain Piece.Adjacent)
    (hvalid : ∀ p ∈ ps, p.Valid) (hcalls : ∀ p ∈ ps, p.calls k = false) (fuel : Nat) :
    writeCalls k.spelling k.form fuel (textOf ps) = textOf ps := by
  cases fuel with
  | zero => rfl
  | succ fuel =>
      rw [writeCalls]
      simp only [leftmostCall?_eq_none hchain hvalid hcalls]

theorem length_le_length_textOf {ps : List Piece} (hvalid : ∀ p ∈ ps, p.Valid) :
    ps.length ≤ (textOf ps).length := by
  induction ps with
  | nil => exact Nat.le_refl 0
  | cons p ps ih =>
      have hp := List.length_pos_of_ne_nil (hvalid p (by simp)).text_ne_nil
      have hps := ih fun q hq => hvalid q (by simp [hq])
      simp only [textOf_cons, List.length_cons, List.length_append]
      omega

/-- There are as many rounds as characters, and so enough for every call. -/
theorem Rewrites.writeCalls_textOf {k : Keyword} {s : Bool} {ps qs : List Piece}
    (h : Rewrites k s ps qs) :
    writeCalls k.spelling k.form (textOf ps).length (textOf ps) = textOf qs := by
  have hcalls := (List.countP_le_length (p := Piece.calls k)).trans
    (length_le_length_textOf h.source.valid)
  obtain ⟨spare, hspare⟩ := Nat.exists_eq_add_of_le hcalls
  have hframe : Frame k s [] [] := by
    refine ⟨fun ps hps => by simpa using hps.operand.chain, ?_, ?_⟩ <;> simp
  have hwrites := h.writes hframe spare
  simp only [List.nil_append, List.append_nil] at hwrites
  rw [hspare, hwrites]
  exact writeCalls_eq_self h.target.operand.chain h.target.valid h.clear spare

/-- The statements and operators of a tree, as scripts write them. -/
theorem writeStatements_render {e : Tree} (h : e.Stated) :
    writeStatements e.render = textOf ((e.pieces fun _ => true).map Piece.inScript) := by
  have hchoices : writeChoices (textOf (e.pieces fun _ => false)) =
      textOf (e.pieces fun j => false || j = .choice) :=
    (Tree.rewrites (k := .choice) rfl h).writeCalls_textOf
  have hconjunctions : writeConjunctions (textOf (e.pieces fun j => false || j = .choice)) =
      textOf (e.pieces fun j => (false || j = .choice) || j = .conjunction) :=
    (Tree.rewrites (k := .conjunction) rfl h).writeCalls_textOf
  have hdisjunctions :
      writeDisjunctions (textOf (e.pieces fun j => (false || j = .choice) || j = .conjunction)) =
        textOf (e.pieces
          fun j => ((false || j = .choice) || j = .conjunction) || j = .disjunction) :=
    (Tree.rewrites (k := .disjunction) rfl h).writeCalls_textOf
  have hall : (fun j : Keyword => ((false || decide (j = .choice)) || decide (j = .conjunction)) ||
      decide (j = .disjunction)) = fun _ => true := by
    funext j
    cases j <;> rfl
  have hoperators := writeOperators_textOf (e.isOperand_pieces fun _ => true)
    (fun p hp => (Tree.valid_pieces h p hp).legible)
    fun op hop => (Tree.formal_of_mem h hop).1 op rfl
  rw [writeStatements, ← e.textOf_pieces, hchoices, hconjunctions, hdisjunctions, hall, hoperators]

end SheetBoard.Formula
