import Mathlib.Data.List.Nodup
import Mathlib.Data.List.Perm.Subperm
import SheetBoard.Schema
import SheetBoard.Proofs.Number.Numeral

/-! Names and places of columns. The names of a schema are distinct, so that a column has one place
by its name and by its letters. -/

namespace SheetBoard.Letters

theorem letter_spec : ∀ n < 26, Text.isAsciiLetter (letter n) = true ∧
    ('A' ≤ letter n ∧ letter n ≤ 'Z') ∧ value (letter n) = n + 1 := by
  decide

theorem spell_ne_nil (n : Nat) : spell n ≠ [] := by
  fun_cases spell n with
  | case1 => simp
  | case2 => simp

theorem capital_of_mem_spell {n : Nat} {c : Char} (h : c ∈ spell n) : 'A' ≤ c ∧ c ≤ 'Z' := by
  fun_induction spell n with
  | case1 n hn =>
      rw [List.mem_singleton.1 h]
      exact (letter_spec n hn).2.1
  | case2 n hn ih =>
      rcases List.mem_append.1 h with h | h
      · exact ih h
      · rw [List.mem_singleton.1 h]
        exact (letter_spec _ (Nat.mod_lt n (by decide))).2.1

theorem extend?_letter {m n : Nat} (hn : n < 26) (h : 26 * m + (n + 1) < Number.wordSize) :
    extend? m (letter n) = some (26 * m + (n + 1)) := by
  obtain ⟨hletter, -, hvalue⟩ := letter_spec n hn
  rw [extend?, hvalue, if_pos ⟨hletter, h⟩]

/-- The letters before the last one count how often the alphabet has been gone through. -/
theorem foldlM_spell {n : Nat} (h : n + 1 < Number.wordSize) :
    (spell n).foldlM extend? 0 = some (n + 1) := by
  fun_induction spell n with
  | case1 n hn =>
      have hread := extend?_letter (m := 0) hn (by omega)
      simpa using hread
  | case2 n hn ih =>
      have hrounds : n / 26 - 1 + 1 = n / 26 := by omega
      have hread := extend?_letter (m := n / 26) (Nat.mod_lt n (by decide)) (by omega)
      have hwhole : 26 * (n / 26) + (n % 26 + 1) = n + 1 := by omega
      rw [hwhole] at hread
      rw [List.foldlM_append, ih (by omega), hrounds]
      simpa using hread

/-- The letters of a column are read as its position. -/
theorem toIndex?_spell {n : Nat} (h : n < Number.halfWord) : toIndex? (spell n) = some n := by
  have hword : n + 1 < Number.wordSize := Nat.lt_of_le_of_lt h (by decide)
  have hne : (spell n).isEmpty = false := by simp [spell_ne_nil]
  rw [toIndex?, hne, foldlM_spell hword]
  rfl

end SheetBoard.Letters

namespace SheetBoard.Schema

theorem indexOf?_eq_none_iff {s : Schema} {name : String} :
    s.indexOf? name = none ↔ name ∉ s.names :=
  List.idxOf?_eq_none_iff

theorem isSome_indexOf? {s : Schema} {name : String} :
    (s.indexOf? name).isSome ↔ name ∈ s.names :=
  List.isSome_idxOf?

theorem mem_of_indexOf? {s : Schema} {name : String} {j : Nat} (h : s.indexOf? name = some j) :
    name ∈ s.names :=
  isSome_indexOf?.1 (Option.isSome_of_eq_some h)

theorem getElem?_of_indexOf? {s : Schema} {name : String} {j : Nat}
    (h : s.indexOf? name = some j) : s.names[j]? = some name := by
  unfold indexOf? List.idxOf? at h
  obtain ⟨hj, hname, -⟩ := List.findIdx?_eq_some_iff_getElem.1 h
  rw [List.getElem?_eq_getElem hj]
  simpa using hname

theorem indexOf?_lt {s : Schema} {name : String} {j : Nat} (h : s.indexOf? name = some j) :
    j < s.size :=
  (List.getElem?_eq_some_iff.1 (getElem?_of_indexOf? h)).1

/-- Among distinct names, a name is found in its own place. -/
theorem indexOf?_of_getElem? {s : Schema} (hs : s.names.Nodup) {name : String} {j : Nat}
    (h : s.names[j]? = some name) : s.indexOf? name = some j := by
  obtain ⟨i, hi⟩ := Option.isSome_iff_exists.1 (isSome_indexOf?.2 (List.mem_of_getElem? h))
  have hj : j < s.names.length := (List.getElem?_eq_some_iff.1 h).1
  have hplace : i = j :=
    (List.getElem?_inj (indexOf?_lt hi) hs).1 ((getElem?_of_indexOf? hi).trans h.symm)
  rw [hi, hplace]

/-- Among distinct names, what is read by letters is read in the place that they stand for. -/
theorem bind_nameAt? {α : Type} {s : Schema} (hs : s.names.Nodup) (letters : List Char)
    {read : Nat → Option α} (hread : ∀ j, s.size ≤ j → read j = none) :
    ((s.nameAt? letters).bind fun name => (s.indexOf? name).bind read) =
      (Letters.toIndex? letters).bind read := by
  unfold nameAt?
  cases Letters.toIndex? letters with
  | none => rfl
  | some j =>
      by_cases hj : j < s.names.length
      · have hname : s.names[j]? = some s.names[j] := List.getElem?_eq_getElem hj
        simp [hname, indexOf?_of_getElem? hs hname]
      · simp [List.getElem?_eq_none (Nat.le_of_not_lt hj), hread j (Nat.le_of_not_lt hj)]

/-- The letters of a column, if it has any, are capitals that name the column. -/
theorem nameAt?_of_lettersOf? {s : Schema} {name : String} {letters : List Char}
    (h : s.lettersOf? name = some letters) (hne : letters ≠ []) :
    s.nameAt? letters = some name ∧ ∀ c ∈ letters, 'A' ≤ c ∧ c ≤ 'Z' := by
  obtain ⟨j, hj, hletters⟩ := Option.map_eq_some_iff.1 h
  unfold Letters.ofIndex at hletters
  split at hletters
  · rename_i hlt
    subst hletters
    refine ⟨?_, fun c => Letters.capital_of_mem_spell⟩
    rw [nameAt?, Letters.toIndex?_spell hlt, Option.bind_some, getElem?_of_indexOf? hj]
  · exact absurd hletters.symm hne

/-! ### Names that are free -/

theorem alternative_injective (header : String) : Function.Injective (alternative header) := by
  intro m n h
  have hdigits : Number.digitsOf m = Number.digitsOf n := by
    simpa [alternative] using congrArg String.toList h
  rw [← Number.natOfDigits_digitsOf m, hdigits, Number.natOfDigits_digitsOf]

theorem freeName_notMem (names : List String) (header : String) :
    freeName names header ∉ names := by
  unfold freeName
  split
  · -- There are more alternatives than names, so that one of them is found.
    set candidates := (List.range (names.length + 1)).map fun n => alternative header (n + 1)
      with hcandidates
    cases hfound : candidates.find? fun candidate => candidate ∉ names with
    | some candidate => simpa using List.find?_some hfound
    | none =>
        have hsubset : candidates ⊆ names := by
          intro candidate hcandidate
          simpa using List.find?_eq_none.1 hfound candidate hcandidate
        have hnodup : candidates.Nodup :=
          List.nodup_range.map fun m n h => Nat.succ.inj (alternative_injective header h)
        have hlength := (List.subperm_of_subset hnodup hsubset).length_le
        simp only [hcandidates, List.length_map, List.length_range] at hlength
        omega
  · assumption

theorem freeName_eq_self {names : List String} {header : String} (h : header ∉ names) :
    freeName names header = header := by
  simp [freeName, h]

theorem nodup_concat {names : List String} {name : String} (hnames : names.Nodup)
    (hname : name ∉ names) : (names ++ [name]).Nodup := by
  rw [List.nodup_append]
  refine ⟨hnames, List.nodup_singleton name, ?_⟩
  rintro a ha b hb rfl
  exact hname (List.mem_singleton.1 hb ▸ ha)

theorem nodup_ofHeaders (headers : List String) : (ofHeaders headers).names.Nodup := by
  have hfold : ∀ names : List String, names.Nodup →
      (headers.foldl (fun names header => names ++ [freeName names header]) names).Nodup := by
    induction headers with
    | nil => exact fun names hnames => hnames
    | cons header headers ih =>
        exact fun names hnames => ih _ (nodup_concat hnames (freeName_notMem names header))
  exact hfold [] List.nodup_nil

/-- Distinct headers are the names of their schema. -/
theorem ofHeaders_of_nodup {headers : List String} (h : headers.Nodup) :
    ofHeaders headers = ⟨headers⟩ := by
  have hfold : ∀ names : List String, (names ++ headers).Nodup →
      headers.foldl (fun names header => names ++ [freeName names header]) names =
        names ++ headers := by
    clear h
    induction headers with
    | nil => simp
    | cons header headers ih =>
        intro names hnames
        have hfree : header ∉ names := by
          intro hmem
          exact List.disjoint_of_nodup_append hnames hmem (by simp)
        rw [List.foldl_cons, freeName_eq_self hfree, ih _ (by simpa using hnames)]
        simp
  exact congrArg Schema.mk (hfold [] h)

end SheetBoard.Schema
