import Mathlib.Logic.Relation
import SheetBoard.Proofs.Criterion.Wildcards

/-! The search for a wildcard match, round by round. It keeps four places: where it stands in the
pattern and in the text, the last star, and where in the text that star was last tried from. A
mismatch takes the place in the text back, but then the star has moved on, so no state comes twice.
-/

namespace SheetBoard.Text

/-- The state of a search. -/
structure Search where
  inPattern : Nat
  inText : Nat
  /-- The place of the last star in the pattern, once there was one. -/
  star : Option Nat
  /-- The place in the text that this star was last tried from. -/
  since : Nat
  deriving Repr, DecidableEq

/-- What a round leads to: another round, or the answer. -/
inductive Turn where
  | next (s : Search)
  | stop (found : Bool)
  deriving Repr, DecidableEq

namespace Search

def start : Search := ⟨0, 0, none, 0⟩

/-- A character of the pattern is taken for one of the text. -/
def advance (s : Search) : Search :=
  { s with inPattern := s.inPattern + 1, inText := s.inText + 1 }

/-- A star is recorded, and stands for nothing at first. -/
def record (s : Search) : Search :=
  { s with inPattern := s.inPattern + 1, star := some s.inPattern, since := s.inText }

/-- Behind the text a star stands for nothing. -/
def skip (s : Search) : Search := { s with inPattern := s.inPattern + 1 }

/-- The star at place `i` takes one more character. -/
def retry (s : Search) (i : Nat) : Search :=
  { s with inPattern := i + 1, inText := s.since + 1, since := s.since + 1 }

def goBack (s : Search) : Turn :=
  match s.star with
  | none => .stop false
  | some i => .next (s.retry i)

/-- One round. It has no outcome if a read is out of range. -/
def turn? (pattern text : List Char) (s : Search) : Option Turn :=
  if s.inText < text.length then
    if s.inPattern < pattern.length then do
      let d ← pattern[s.inPattern]?
      let c ← text[s.inText]?
      return if d = '?' ∨ d = c then .next s.advance
        else if d = '*' then .next s.record
        else s.goBack
    else some s.goBack
  else if s.inPattern < pattern.length then do
    let d ← pattern[s.inPattern]?
    return if d = '*' then .next s.skip else .stop (s.inPattern = pattern.length)
  else some (.stop (s.inPattern = pattern.length))

/-- The answer after at most `n` rounds, if there is one by then. -/
def run (pattern text : List Char) : Nat → Search → Option Bool
  | 0, _ => none
  | n + 1, s =>
    match s.turn? pattern text with
    | none => none
    | some (.stop found) => some found
    | some (.next s) => run pattern text n s

/-- The places that grow from round to round, the most significant one first. -/
def key (s : Search) : Option Nat × Nat × Nat × Nat := (s.star, s.since, s.inText, s.inPattern)

/-- The state `s` comes before `s'`. -/
def Precedes (s s' : Search) : Prop :=
  Prod.Lex (· < ·) (Prod.Lex (· < ·) (Prod.Lex (· < ·) (· < ·))) s.key s'.key

/-- The bounds of the four places. -/
structure Within (pattern text : List Char) (s : Search) : Prop where
  inPattern : s.inPattern ≤ pattern.length
  inText : s.inText ≤ text.length
  star : ∀ i ∈ s.star, i < s.inPattern
  since : s.since ≤ s.inText

/-! ### One round -/

/-- What a round can do, with what it has read. -/
inductive Round (pattern text : List Char) (s : Search) : Turn → Prop where
  | fit {d c : Char} : pattern[s.inPattern]? = some d → text[s.inText]? = some c → Fits d c →
      Round pattern text s (.next s.advance)
  | star {c : Char} : pattern[s.inPattern]? = some '*' → text[s.inText]? = some c → c ≠ '*' →
      Round pattern text s (.next s.record)
  | retry {c : Char} {i : Nat} : text[s.inText]? = some c →
      (∀ d ∈ pattern[s.inPattern]?, ¬Fits d c ∧ d ≠ '*') → s.star = some i →
      Round pattern text s (.next (s.retry i))
  | lost {c : Char} : text[s.inText]? = some c →
      (∀ d ∈ pattern[s.inPattern]?, ¬Fits d c ∧ d ≠ '*') → s.star = none →
      Round pattern text s (.stop false)
  | skip : text.length ≤ s.inText → pattern[s.inPattern]? = some '*' →
      Round pattern text s (.next s.skip)
  | ended : text.length ≤ s.inText → pattern[s.inPattern]? ≠ some '*' →
      Round pattern text s (.stop (s.inPattern = pattern.length))

variable {pattern text : List Char} {s s' : Search}

theorem round_goBack {c : Char} (hc : text[s.inText]? = some c)
    (hmisfit : ∀ d ∈ pattern[s.inPattern]?, ¬Fits d c ∧ d ≠ '*') :
    Round pattern text s s.goBack := by
  unfold goBack
  cases hstar : s.star with
  | none => exact .lost hc hmisfit hstar
  | some i => exact .retry hc hmisfit hstar

/-- In the text, a round compares two characters, if the pattern has one left. -/
theorem exists_round_of_lt (htext : s.inText < text.length) :
    ∃ turn, s.turn? pattern text = some turn ∧ Round pattern text s turn := by
  have hc : text[s.inText]? = some text[s.inText] := List.getElem?_eq_getElem htext
  unfold turn?
  rw [if_pos htext]
  by_cases hlt : s.inPattern < pattern.length
  · have hd : pattern[s.inPattern]? = some pattern[s.inPattern] := List.getElem?_eq_getElem hlt
    rw [if_pos hlt, hd, hc]
    refine ⟨_, rfl, ?_⟩
    split
    · rename_i hfits
      exact .fit hd hc hfits
    rename_i hfits
    split
    · rename_i hstar
      rw [hstar] at hd hfits
      exact .star hd hc fun heq => hfits (.inr heq.symm)
    · rename_i hstar
      refine round_goBack hc ?_
      rw [hd]
      rintro _ ⟨⟩
      exact ⟨hfits, hstar⟩
  · rw [if_neg hlt]
    refine ⟨_, rfl, round_goBack hc ?_⟩
    rw [List.getElem?_eq_none (Nat.le_of_not_lt hlt)]
    rintro _ ⟨⟩

/-- Behind the text, only stars may be left. -/
theorem exists_round_of_le (htext : text.length ≤ s.inText) :
    ∃ turn, s.turn? pattern text = some turn ∧ Round pattern text s turn := by
  unfold turn?
  rw [if_neg (Nat.not_lt_of_le htext)]
  by_cases hlt : s.inPattern < pattern.length
  · have hd : pattern[s.inPattern]? = some pattern[s.inPattern] := List.getElem?_eq_getElem hlt
    rw [if_pos hlt, hd]
    refine ⟨_, rfl, ?_⟩
    split
    · rename_i hstar
      exact .skip htext (hstar ▸ hd)
    · rename_i hstar
      exact .ended htext fun heq => hstar (Option.some.inj (hd.symm.trans heq))
  · rw [if_neg hlt]
    refine ⟨_, rfl, .ended htext ?_⟩
    rw [List.getElem?_eq_none (Nat.le_of_not_lt hlt)]
    simp

/-- Every round has an outcome: no read is out of range. -/
theorem exists_round (pattern text : List Char) (s : Search) :
    ∃ turn, s.turn? pattern text = some turn ∧ Round pattern text s turn := by
  rcases Nat.lt_or_ge s.inText text.length with hlt | hge
  · exact exists_round_of_lt hlt
  · exact exists_round_of_le hge

theorem round_of_turn? {turn : Turn} (h : s.turn? pattern text = some turn) :
    Round pattern text s turn := by
  obtain ⟨turn', hturn, hround⟩ := exists_round pattern text s
  obtain rfl := Option.some.inj (h.symm.trans hturn)
  exact hround

theorem Within.start : start.Within pattern text :=
  ⟨Nat.zero_le _, Nat.zero_le _, by simp [Search.start], Nat.le_refl _⟩

theorem Within.next (h : s.Within pattern text) (hround : Round pattern text s (.next s')) :
    s'.Within pattern text := by
  have hsince := h.since
  cases hround with
  | fit hd hc hfits =>
      have hpattern := (List.getElem?_eq_some_iff.1 hd).1
      have htext := (List.getElem?_eq_some_iff.1 hc).1
      exact ⟨hpattern, htext, fun i hi => Nat.lt_succ_of_lt (h.star i hi), Nat.le_succ_of_le hsince⟩
  | star hd hc hne =>
      have hpattern := (List.getElem?_eq_some_iff.1 hd).1
      refine ⟨hpattern, h.inText, ?_, Nat.le_refl _⟩
      rintro _ ⟨⟩
      exact Nat.lt_succ_self _
  | @retry c i hc hmisfit hstar =>
      have htext := (List.getElem?_eq_some_iff.1 hc).1
      have hi := h.star i hstar
      refine ⟨Nat.le_trans hi h.inPattern, Nat.le_trans (Nat.succ_le_succ hsince) htext, ?_,
        Nat.le_refl _⟩
      intro j hj
      obtain rfl : i = j := Option.some.inj (hstar.symm.trans hj)
      exact Nat.lt_succ_self _
  | skip hend hd =>
      have hpattern := (List.getElem?_eq_some_iff.1 hd).1
      exact ⟨hpattern, h.inText, fun i hi => Nat.lt_succ_of_lt (h.star i hi), hsince⟩

/-- A round that is not the last one makes the key greater. -/
theorem Within.precedes (h : s.Within pattern text) (hround : Round pattern text s (.next s')) :
    s.Precedes s' := by
  cases hround with
  | fit hd hc hfits => exact .right _ (.right _ (.left _ _ (Nat.lt_succ_self _)))
  | star hd hc hne =>
      refine .left _ _ ?_
      cases hstar : s.star with
      | none => exact trivial
      | some i => exact h.star i hstar
  | retry hc hmisfit hstar => exact .right _ (.left _ _ (Nat.lt_succ_self _))
  | skip hend hd => exact .right _ (.right _ (.right _ (Nat.lt_succ_self _)))

/-! ### The number of rounds -/

/-- The number of rounds that are always enough. -/
def limit (pattern text : List Char) : Nat :=
  (pattern.length + 1) * (text.length + 1) * (pattern.length + text.length + 1)

/-- The key as one number, whose digits are the places. The last two count as one. -/
def count (pattern text : List Char) (s : Search) : Nat :=
  (s.star.elim 0 (· + 1) * (text.length + 1) + s.since) * (pattern.length + text.length + 1) +
    (s.inText + s.inPattern)

theorem mul_add_lt_of_lt {a a' b n : Nat} (ha : a < a') (hb : b < n) (b' : Nat) :
    a * n + b < a' * n + b' :=
  calc a * n + b < a * n + n := Nat.add_lt_add_left hb _
    _ = (a + 1) * n := (Nat.succ_mul a n).symm
    _ ≤ a' * n := Nat.mul_le_mul_right n ha
    _ ≤ a' * n + b' := Nat.le_add_right _ _

theorem Within.digits (h : s.Within pattern text) :
    s.since < text.length + 1 ∧ s.inText + s.inPattern < pattern.length + text.length + 1 := by
  have hpattern := h.inPattern
  have htext := h.inText
  have hsince := h.since
  omega

theorem Within.count_lt_limit (h : s.Within pattern text) :
    s.count pattern text < limit pattern text := by
  obtain ⟨hsince, hplaces⟩ := h.digits
  have hstar : s.star.elim 0 (· + 1) < pattern.length + 1 := by
    cases hs : s.star with
    | none => exact Nat.succ_pos _
    | some i => exact Nat.succ_lt_succ (Nat.lt_of_lt_of_le (h.star i hs) h.inPattern)
  exact mul_add_lt_of_lt (mul_add_lt_of_lt hstar hsince 0) hplaces 0

theorem Within.count_lt_count (h : s.Within pattern text)
    (hround : Round pattern text s (.next s')) : s.count pattern text < s'.count pattern text := by
  obtain ⟨hsince, hplaces⟩ := h.digits
  cases hround with
  | fit hd hc hfits =>
      refine Nat.add_lt_add_left ?_ _
      simp only [advance]
      omega
  | star hd hc hne =>
      refine mul_add_lt_of_lt (mul_add_lt_of_lt ?_ hsince _) hplaces _
      cases hstar : s.star with
      | none => exact Nat.succ_pos _
      | some i => exact Nat.succ_lt_succ (h.star i hstar)
  | retry hc hmisfit hstar =>
      exact mul_add_lt_of_lt (Nat.add_lt_add_left (Nat.lt_succ_self _) _) hplaces _
  | skip hend hd => exact Nat.add_lt_add_left (Nat.lt_succ_self _) _

end Search

/-! ### The answer -/

section

variable {star since pattern tail rest : List Char} {d c : Char}

theorem globAfter_nil (h : pattern.length ≤ star.length) :
    globAfter star since pattern [] h = pattern.all (· = '*') := by
  rw [globAfter]

theorem globAfter_fit (h : (d :: tail).length ≤ star.length) (hfits : Fits d c) :
    globAfter star since (d :: tail) (c :: rest) h =
      globAfter star since tail rest (Nat.le_of_succ_le h) := by
  rw [globAfter.eq_def]
  exact if_pos hfits

theorem not_fits_star (hc : c ≠ '*') : ¬Fits '*' c :=
  fun hor => hor.elim (by decide) fun heq => hc heq.symm

theorem globAfter_star (h : ('*' :: tail).length ≤ star.length) (hc : c ≠ '*') :
    globAfter star since ('*' :: tail) (c :: rest) h =
      globAfter tail (c :: rest) tail (c :: rest) (Nat.le_refl _) := by
  rw [globAfter.eq_def]
  exact (if_neg (not_fits_star hc)).trans (if_pos rfl)

theorem globAfter_misfit {b : Char} (h : pattern.length ≤ star.length)
    (hmisfit : ∀ d ∈ pattern.head?, ¬Fits d c ∧ d ≠ '*') :
    globAfter star (b :: since) pattern (c :: rest) h =
      globAfter star since star since (Nat.le_refl _) := by
  rw [globAfter.eq_def]
  cases pattern with
  | nil => rfl
  | cons d tail =>
      obtain ⟨hfits, hstar⟩ := hmisfit d rfl
      exact (if_neg hfits).trans (if_neg hstar)

theorem glob_nil : glob pattern [] = pattern.all (· = '*') := by
  rw [glob]

theorem glob_fit (hfits : Fits d c) : glob (d :: tail) (c :: rest) = glob tail rest := by
  rw [glob]
  exact if_pos hfits

theorem glob_star (hc : c ≠ '*') : glob ('*' :: tail) (c :: rest) =
    globAfter tail (c :: rest) tail (c :: rest) (Nat.le_refl _) := by
  rw [glob]
  exact (if_neg (not_fits_star hc)).trans (if_pos rfl)

theorem glob_misfit (hmisfit : ∀ d ∈ pattern.head?, ¬Fits d c ∧ d ≠ '*') :
    glob pattern (c :: rest) = false := by
  cases pattern with
  | nil => rfl
  | cons d tail =>
      obtain ⟨hfits, hstar⟩ := hmisfit d rfl
      rw [glob]
      exact (if_neg hfits).trans (if_neg hstar)

end

namespace Search

/-- The answer that is still to come, from what is left of the pattern and of the text. -/
inductive Answers (pattern text : List Char) (s : Search) : Bool → Prop where
  | plain : s.star = none →
      Answers pattern text s (glob (pattern.drop s.inPattern) (text.drop s.inText))
  | starred {i : Nat} (h : (pattern.drop s.inPattern).length ≤ (pattern.drop (i + 1)).length) :
      s.star = some i → Answers pattern text s (globAfter (pattern.drop (i + 1))
        (text.drop s.since) (pattern.drop s.inPattern) (text.drop s.inText) h)

theorem drop_of_getElem? {cs : List Char} {i : Nat} {c : Char} (h : cs[i]? = some c) :
    cs.drop i = c :: cs.drop (i + 1) := by
  rw [List.drop_eq_getElem?_toList_append, h]
  rfl

variable {pattern text : List Char} {s s' : Search} {found : Bool}

/-- Behind the text, the answer is whether only stars are left. -/
theorem Answers.eq_all (h : s.Answers pattern text found) (hend : text.length ≤ s.inText) :
    found = (pattern.drop s.inPattern).all (· = '*') := by
  have htext : text.drop s.inText = [] := List.drop_eq_nil_of_le hend
  cases h with
  | plain hnone => rw [htext, glob_nil]
  | starred hlength hsome => simp only [htext, globAfter_nil]

theorem Within.answers_all (h : s.Within pattern text) (hend : text.length ≤ s.inText) :
    s.Answers pattern text ((pattern.drop s.inPattern).all (· = '*')) := by
  cases hstar : s.star with
  | none =>
      have hplain := @Answers.plain pattern text s hstar
      exact hplain.eq_all hend ▸ hplain
  | some i =>
      have hlength : (pattern.drop s.inPattern).length ≤ (pattern.drop (i + 1)).length := by
        rw [List.length_drop, List.length_drop]
        exact Nat.sub_le_sub_left (h.star i hstar) _
      have hstarred := @Answers.starred pattern text s i hlength hstar
      exact hstarred.eq_all hend ▸ hstarred

theorem Answers.next (h : s.Answers pattern text found) (hwithin : s.Within pattern text)
    (hround : Round pattern text s (.next s')) : s'.Answers pattern text found := by
  cases hround with
  | fit hd hc hfits =>
      have hpattern := drop_of_getElem? hd
      have htext := drop_of_getElem? hc
      cases h with
      | plain hnone =>
          rw [hpattern, htext, glob_fit hfits]
          exact .plain (s := s.advance) hnone
      | starred hlength hsome =>
          simp only [hpattern, htext, globAfter_fit _ hfits]
          exact .starred (s := s.advance) _ hsome
  | star hd hc hne =>
      have hpattern := drop_of_getElem? hd
      have htext := drop_of_getElem? hc
      have hrecord := @Answers.starred pattern text s.record s.inPattern (Nat.le_refl _) rfl
      simp only [record, htext] at hrecord
      cases h with
      | plain hnone =>
          rw [hpattern, htext, glob_star hne]
          exact hrecord
      | starred hlength hsome =>
          simp only [hpattern, htext, globAfter_star _ hne]
          exact hrecord
  | @retry c i hc hmisfit hstar =>
      have htext := drop_of_getElem? hc
      have hsince := drop_of_getElem? (List.getElem?_eq_getElem
        (Nat.lt_of_le_of_lt hwithin.since (List.getElem?_eq_some_iff.1 hc).1))
      cases h with
      | plain hnone => cases hnone.symm.trans hstar
      | @starred j hlength hsome =>
          obtain rfl : i = j := Option.some.inj (hstar.symm.trans hsome)
          simp only [htext, hsince]
          rw [globAfter_misfit _ (by rwa [List.head?_drop])]
          exact .starred (s := s.retry i) (Nat.le_refl _) hstar
  | skip hend hd =>
      have hnext := (hwithin.next (.skip hend hd)).answers_all hend
      rw [h.eq_all hend, drop_of_getElem? hd, List.all_cons, decide_eq_true rfl, Bool.true_and]
      exact hnext

theorem Answers.stop {b : Bool} (h : s.Answers pattern text found)
    (hwithin : s.Within pattern text) (hround : Round pattern text s (.stop b)) : found = b := by
  cases hround with
  | lost hc hmisfit hstar =>
      cases h with
      | plain hnone =>
          rw [drop_of_getElem? hc]
          exact glob_misfit (by rwa [List.head?_drop])
      | starred hlength hsome => cases hstar.symm.trans hsome
  | ended hend hd =>
      rw [h.eq_all hend]
      rcases Nat.lt_or_eq_of_le hwithin.inPattern with hlt | heq
      · have hget := List.getElem?_eq_getElem hlt
        have hstar : pattern[s.inPattern] ≠ '*' := fun heq => hd (hget.trans (congrArg some heq))
        rw [drop_of_getElem? hget, List.all_cons, decide_eq_false hstar, Bool.false_and,
          decide_eq_false (Nat.ne_of_lt hlt)]
      · simp [heq]

/-! ### The whole search -/

theorem run_eq (hwithin : s.Within pattern text) (h : s.Answers pattern text found) {n : Nat}
    (hn : limit pattern text ≤ s.count pattern text + n) : run pattern text n s = some found := by
  induction n generalizing s with
  | zero => exact absurd hwithin.count_lt_limit (Nat.not_lt_of_le hn)
  | succ n ih =>
      obtain ⟨turn, hturn, hround⟩ := exists_round pattern text s
      rw [run, hturn]
      cases turn with
      | stop b => exact congrArg some (h.stop hwithin hround).symm
      | next s' =>
          have hcount := hwithin.count_lt_count hround
          exact ih (hwithin.next hround) (h.next hwithin hround) (by omega)

/-- One round leads to the other. -/
def Leads (pattern text : List Char) (s s' : Search) : Prop :=
  s.turn? pattern text = some (.next s')

theorem within_of_reached (h : Relation.ReflTransGen (Leads pattern text) start s) :
    s.Within pattern text := by
  induction h with
  | refl => exact .start
  | tail _ hturn ih => exact ih.next (round_of_turn? hturn)

/-- The search ends. In every state that it reaches, all places are within the pattern and the text,
no read is out of range, and the next state has a greater key. There are at most as many rounds as
the limit says, the answer is that of the recursion, and a text that is accepted matches. -/
theorem search_ends (pattern text : List Char) :
    (∀ s, Relation.ReflTransGen (Leads pattern text) start s →
      s.Within pattern text ∧ (∃ turn, s.turn? pattern text = some turn) ∧
        ∀ s', Leads pattern text s s' → s.Precedes s') ∧
    run pattern text (limit pattern text) start = some (glob pattern text) ∧
    (glob pattern text = true → Matches pattern text) := by
  refine ⟨fun s hreached => ?_, ?_, fun h => (glob_iff.1 h).matches⟩
  · have hwithin := within_of_reached hreached
    obtain ⟨turn, hturn, -⟩ := exists_round pattern text s
    exact ⟨hwithin, ⟨turn, hturn⟩, fun s' hleads => hwithin.precedes (round_of_turn? hleads)⟩
  · exact run_eq .start (.plain rfl) (Nat.le_add_left _ _)

/-- The first `24` is not the end of the text, so that the star is tried again. -/
theorem search_ends_retried :
    let pattern := "*24".toList
    let text := "2024-24".toList
    run pattern text (limit pattern text) start = some true ∧ Matches pattern text := by
  intro pattern text
  have hrun : run pattern text (limit pattern text) start = some true := by decide +kernel
  have hends := search_ends pattern text
  have hglob : glob pattern text = true := Option.some.inj (hends.2.1.symm.trans hrun)
  exact ⟨hrun, hends.2.2 hglob⟩

end Search

end SheetBoard.Text
