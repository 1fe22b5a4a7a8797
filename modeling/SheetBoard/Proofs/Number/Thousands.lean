import SheetBoard.Number.Rounded
import SheetBoard.Proofs.Number.Numeral

/-! Numbers with commas between the thousands. The commas are all that is added to the plain text,
and they cut the whole part from the right into groups of three. -/

namespace SheetBoard.Number

/-! ### Groups of digits -/

/-- Digits in groups: one to three in the first, and three in each of the others. -/
structure Groups where
  first : List Char
  more : List (List Char)
  first_ne_nil : first ≠ []
  first_length : first.length ≤ 3
  more_length : ∀ group ∈ more, group.length = 3

namespace Groups

def digits (g : Groups) : List Char := g.first ++ g.more.flatten

/-- The groups with commas between them. -/
def text (g : Groups) : List Char := g.first ++ g.more.flatMap (',' :: ·)

theorem length_digits_mod (g : Groups) : g.digits.length % 3 = g.first.length % 3 := by
  obtain ⟨first, more, _, _, hmore⟩ := g
  have hlength : more.flatten.length = more.length * 3 := by
    rw [List.length_flatten, List.eq_replicate_of_mem (l := more.map List.length) (a := 3)]
    · simp
    · simpa using hmore
  rw [digits, List.length_append, hlength, Nat.add_mul_mod_self_right]

/-- One more digit in front: it joins the first group, or starts a new one if that is full. -/
theorem exists_cons (g : Groups) (c : Char) : ∃ g' : Groups, g'.digits = c :: g.digits ∧
    g'.text = if g.digits.length % 3 = 0 then c :: ',' :: g.text else c :: g.text := by
  have hmod := g.length_digits_mod
  have hpos := List.length_pos_iff.2 g.first_ne_nil
  have hle := g.first_length
  by_cases hfull : g.first.length = 3
  · have hmore : ∀ group ∈ g.first :: g.more, group.length = 3 :=
      List.forall_mem_cons.2 ⟨hfull, g.more_length⟩
    refine ⟨⟨[c], g.first :: g.more, by simp, by simp, hmore⟩, by simp [digits], ?_⟩
    rw [if_pos (by omega)]
    simp [text]
  · have hlength : (c :: g.first).length ≤ 3 := by
      rw [List.length_cons]
      omega
    refine ⟨⟨c :: g.first, g.more, by simp, hlength, g.more_length⟩, by simp [digits], ?_⟩
    rw [if_neg (by omega)]
    simp [text]

end Groups

theorem groupThousands_cons_cons (c d : Char) (rest : List Char) :
    groupThousands (c :: d :: rest) = if (d :: rest).length % 3 = 0
      then c :: ',' :: groupThousands (d :: rest) else c :: groupThousands (d :: rest) := rfl

theorem exists_groups {cs : List Char} (h : cs ≠ []) :
    ∃ g : Groups, g.digits = cs ∧ groupThousands cs = g.text := by
  induction cs with
  | nil => exact absurd rfl h
  | cons c rest ih =>
      cases rest with
      | nil => exact ⟨⟨[c], [], by simp, by simp, by simp⟩, rfl, rfl⟩
      | cons d rest =>
          obtain ⟨g, hdigits, htext⟩ := ih (by simp)
          obtain ⟨g', hdigits', htext'⟩ := g.exists_cons c
          refine ⟨g', by rw [hdigits', hdigits], ?_⟩
          rw [groupThousands_cons_cons, htext, htext', hdigits]

/-- Grouping adds nothing but commas. -/
theorem filter_groupThousands {cs : List Char} (h : ',' ∉ cs) :
    (groupThousands cs).filter (· ≠ ',') = cs := by
  induction cs with
  | nil => rfl
  | cons c rest ih =>
      have hc : c ≠ ',' := by
        rintro rfl
        simp at h
      have hrest := ih (fun hmem => h (List.mem_cons_of_mem c hmem))
      cases rest with
      | nil => simp [groupThousands, hc]
      | cons d rest =>
          rw [groupThousands_cons_cons]
          split <;> simpa [hc] using hrest

/-! ### The text of a number -/

/-- A number with all its places is a numeral with as many digits behind its point. -/
theorem exists_numeral_placed (n places : Nat) :
    ∃ numeral : Numeral, numeral.fraction.length = places ∧ placed n places = numeral.text := by
  unfold placed
  split
  · rename_i hplaces
    exact ⟨.ofNat n, hplaces.symm, (Numeral.text_ofNat n).symm⟩
  · rename_i hplaces
    -- padding leaves at least one digit in front of the point
    simp only
    generalize hpadded :
      List.replicate (places + 1 - (digitsOf n).length) '0' ++ digitsOf n = padded
    have hlength : places < padded.length := by
      rw [← hpadded, List.length_append, List.length_replicate]
      omega
    have hdigits : ∀ c ∈ padded, isDigit c = true := by
      intro c hc
      rw [← hpadded, List.mem_append] at hc
      rcases hc with hzero | hdigit
      · obtain rfl := List.eq_of_mem_replicate hzero
        rfl
      · exact isDigit_of_mem_digitsOf hdigit
    have hdrop : (padded.drop (padded.length - places)).length = places := by
      rw [List.length_drop]
      omega
    have hwhole : padded.take (padded.length - places) ≠ [] := by
      rw [← List.length_pos_iff, List.length_take]
      omega
    have hfraction : padded.drop (padded.length - places) ≠ [] := by
      rw [← List.length_pos_iff, hdrop]
      omega
    refine ⟨⟨_, padded.drop (padded.length - places), hwhole,
      fun c hc => hdigits c (List.mem_of_mem_take hc),
      fun c hc => hdigits c (List.mem_of_mem_drop hc)⟩, hdrop, ?_⟩
    rw [Numeral.text, if_neg hfraction]

/-- A finite number is written as a numeral, with a minus sign in front of it or not. -/
theorem exists_numeral_withPlaces {x : Float} {places : Nat} {negative : Bool} {m : Nat} {q : Int}
    (h : exact (toPlaces x places) = .finite negative m q) :
    ∃ n : Numeral, n.fraction.length = places ∧ withPlaces x places = signed negative n.text := by
  unfold withPlaces fixedPlaces
  rw [h]
  obtain ⟨n, hlength, htext⟩ := exists_numeral_placed
    (roundDiv ((Fraction.scaleTwo m q).num * tenTo places) (Fraction.scaleTwo m q).den) places
  exact ⟨n, hlength, congrArg (signed negative) htext⟩

theorem Numeral.notMem_text (n : Numeral) {c : Char} (hdigit : isDigit c = false)
    (hpoint : c ≠ '.') : c ∉ n.text := by
  have hwhole : c ∉ n.whole := fun hc => by simp [n.whole_digits c hc] at hdigit
  have hfraction : c ∉ n.fraction := fun hc => by simp [n.fraction_digits c hc] at hdigit
  unfold Numeral.text
  split <;> simp [hwhole, hfraction, hpoint]

/-- Behind its sign, the text of any number has neither a sign nor a comma. -/
theorem exists_body (x : Float) (places : Nat) : ∃ (minus : Bool) (body : List Char),
    withPlaces x places = signed minus body ∧ '-' ∉ body ∧ ',' ∉ body := by
  cases hx : exact (toPlaces x places) with
  | nan =>
      refine ⟨false, ['N', 'a', 'N'], ?_, by decide, by decide⟩
      simp [withPlaces, fixedPlaces, hx, signed]
  | infinite negative =>
      refine ⟨negative, ['i', 'n', 'f'], ?_, by decide, by decide⟩
      simp [withPlaces, fixedPlaces, hx]
  | finite negative m q =>
      obtain ⟨n, -, hn⟩ := exists_numeral_withPlaces hx
      exact ⟨negative, n.text, hn, n.notMem_text rfl (by decide), n.notMem_text rfl (by decide)⟩

theorem withThousands_eq {x : Float} {places : Nat} {minus : Bool} {body : List Char}
    (h : withPlaces x places = signed minus body) (hbody : '-' ∉ body) :
    withThousands x places =
      signed minus (groupThousands (body.takeWhile (· ≠ '.')) ++ body.dropWhile (· ≠ '.')) := by
  unfold withThousands
  rw [h]
  cases minus with
  | true => rfl
  | false =>
      cases body with
      | nil => rfl
      | cons c body =>
          have hc : c ≠ '-' := by
            rintro rfl
            simp at hbody
          simp [signed, hc]

theorem filter_withThousands (x : Float) (places : Nat) :
    (withThousands x places).filter (· ≠ ',') = withPlaces x places := by
  obtain ⟨minus, body, htext, hminus, hcomma⟩ := exists_body x places
  have hwhole : ',' ∉ body.takeWhile (· ≠ '.') :=
    fun hmem => hcomma ((List.takeWhile_prefix _).subset hmem)
  have hrest : (body.dropWhile (· ≠ '.')).filter (· ≠ ',') = body.dropWhile (· ≠ '.') := by
    refine List.filter_eq_self.2 fun c hc => ?_
    have hne : c ≠ ',' := fun heq =>
      hcomma (heq ▸ (List.dropWhile_suffix _).subset hc)
    simpa using hne
  have hbody : (groupThousands (body.takeWhile (· ≠ '.')) ++ body.dropWhile (· ≠ '.')).filter
      (· ≠ ',') = body := by
    rw [List.filter_append, filter_groupThousands hwhole, hrest, List.takeWhile_append_dropWhile]
  rw [withThousands_eq htext hminus, htext]
  cases minus with
  | true => exact congrArg ('-' :: ·) hbody
  | false => exact hbody

/-- Of a numeral, the whole part is grouped and the rest is unchanged. -/
theorem exists_groups_withThousands {x : Float} {places : Nat} {minus : Bool} {n : Numeral}
    (h : withPlaces x places = signed minus n.text) :
    ∃ g : Groups, g.digits = n.whole ∧ withThousands x places =
      signed minus (g.text ++ if n.fraction = [] then [] else '.' :: n.fraction) := by
  obtain ⟨g, hdigits, hgroups⟩ := exists_groups n.whole_ne_nil
  refine ⟨g, hdigits, ?_⟩
  have hpoint : ∀ c ∈ n.whole, decide (c ≠ '.') = true := by
    intro c hc
    have hne : c ≠ '.' := by
      rintro rfl
      cases n.whole_digits _ hc
    simpa using hne
  have hfraction : (if n.fraction = [] then [] else '.' :: n.fraction).head?.any
      (fun c => decide (c ≠ '.')) = false := by
    split <;> rfl
  rw [withThousands_eq h (n.notMem_text rfl (by decide)), Numeral.text,
    takeWhile_append_of_all hpoint hfraction, dropWhile_append_of_all hpoint hfraction, hgroups]

/-- Without its commas a grouped number is the plain one. If that is a numeral, with a sign or not,
the whole part stands in groups and the rest is unchanged; and it is one for all finite numbers. -/
theorem withThousands_grouped (x : Float) (places : Nat) :
    (withThousands x places).filter (· ≠ ',') = withPlaces x places ∧
    (∀ (minus : Bool) (n : Numeral), withPlaces x places = signed minus n.text →
      ∃ g : Groups, g.digits = n.whole ∧ withThousands x places =
        signed minus (g.text ++ if n.fraction = [] then [] else '.' :: n.fraction)) ∧
    (∀ negative m q, exact (toPlaces x places) = .finite negative m q →
      ∃ n : Numeral, n.fraction.length = places ∧
        withPlaces x places = signed negative n.text) := by
  refine ⟨filter_withThousands x places, ?_, ?_⟩
  · intro minus n htext
    exact exists_groups_withThousands htext
  · intro negative m q hfinite
    exact exists_numeral_withPlaces hfinite

theorem withThousands_grouped_millions :
    ∃ n : Numeral, n.whole = "1234567".toList ∧ n.fraction = "89".toList ∧
      withPlaces (-1234567.891) 2 = signed true n.text ∧
      ∃ g : Groups, g.digits = n.whole ∧
        withThousands (-1234567.891) 2 = signed true (g.text ++ ".89".toList) := by
  have hwhole : ∀ c ∈ "1234567".toList, isDigit c = true := List.all_eq_true.1 rfl
  have hfraction : ∀ c ∈ "89".toList, isDigit c = true := List.all_eq_true.1 rfl
  obtain ⟨n, hn, hn'⟩ : ∃ n : Numeral, n.whole = "1234567".toList ∧ n.fraction = "89".toList :=
    ⟨⟨_, _, List.cons_ne_nil _ _, hwhole, hfraction⟩, rfl, rfl⟩
  have htext : withPlaces (-1234567.891) 2 = signed true n.text := by
    rw [Numeral.text, hn, hn']
    decide +kernel
  refine ⟨n, hn, hn', htext, ?_⟩
  have hgrouped := (withThousands_grouped (-1234567.891) 2).2.1 true n htext
  rw [hn'] at hgrouped
  exact hgrouped

end SheetBoard.Number
