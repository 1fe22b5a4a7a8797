import Std.Data.HashMap.Lemmas
import Mathlib.Data.List.Induction
import SheetBoard.Proofs.Table.Deriving

/-! Columns are named once. Headers that repeat get names of their own, and in every schema that is
built from headers and grows by further columns, names, places and letters are one to one. -/

namespace SheetBoard.Letters

/-! ### Letters of either case -/

theorem toNat_lt_of_isAsciiLetter {c : Char} (h : Text.isAsciiLetter c = true) : c.toNat < 128 := by
  simp only [Text.isAsciiLetter, Bool.or_eq_true, Bool.and_eq_true, decide_eq_true_eq, Char.le_def,
    UInt32.le_iff_toNat_le] at h
  rcases h with h | h
  · exact Nat.lt_of_le_of_lt h.2 (by decide)
  · exact Nat.lt_of_le_of_lt h.2 (by decide)

/-- A letter is the capital in the place that it is counted for. -/
theorem value_spec {c : Char} (h : Text.isAsciiLetter c = true) :
    ∃ k < 26, value c = k + 1 ∧ letter k = c.toUpper := by
  have hcheck : ∀ n : Fin 128, Text.isAsciiLetter (Char.ofNat n) = true →
      ∃ k < 26, value (Char.ofNat n) = k + 1 ∧ letter k = (Char.ofNat n).toUpper := by
    decide +kernel
  have hfound := hcheck ⟨c.toNat, toNat_lt_of_isAsciiLetter h⟩
  rw [Char.ofNat_toNat] at hfound
  exact hfound h

theorem extend?_eq_some {m n : Nat} {c : Char} (h : extend? m c = some n) :
    ∃ k < 26, n = 26 * m + (k + 1) ∧ letter k = c.toUpper := by
  unfold extend? at h
  split at h
  · rename_i hc
    obtain ⟨k, hk, hvalue, hletter⟩ := value_spec hc.1
    exact ⟨k, hk, by rw [← hvalue, Option.some.inj h], hletter⟩
  · cases h

theorem spell_of_le {n k : Nat} (hk : k < 26) :
    spell (26 * (n + 1) + k) = spell n ++ [letter k] := by
  have hlarge : ¬ 26 * (n + 1) + k < 26 := by omega
  have hrounds : (26 * (n + 1) + k) / 26 - 1 = n := by omega
  have hlast : (26 * (n + 1) + k) % 26 = k := by omega
  rw [spell, if_neg hlarge, hrounds, hlast]

/-- Letters that are read are the capitals of the position, whatever their case. -/
theorem spell_of_foldlM {letters : List Char} (hne : letters ≠ []) {r : Nat}
    (h : letters.foldlM extend? 0 = some r) :
    ∃ n, r = n + 1 ∧ spell n = letters.map Char.toUpper := by
  induction letters using List.reverseRecOn generalizing r with
  | nil => exact absurd rfl hne
  | append_singleton front c ih =>
      rw [List.foldlM_append] at h
      obtain ⟨m, hfront, hlast⟩ := Option.bind_eq_some_iff.1 h
      replace hlast : extend? m c = some r := by simpa using hlast
      obtain ⟨k, hk, rfl, hletter⟩ := extend?_eq_some hlast
      cases front with
      | nil =>
          obtain rfl : 0 = m := Option.some.inj hfront
          refine ⟨k, by omega, ?_⟩
          rw [spell, if_pos hk, hletter]
          rfl
      | cons d front =>
          obtain ⟨n, rfl, hspell⟩ := ih (by simp) hfront
          refine ⟨26 * (n + 1) + k, rfl, ?_⟩
          rw [spell_of_le hk, hspell, hletter]
          simp

theorem ofIndex_of_toIndex? {letters : List Char} {n : Nat} (h : toIndex? letters = some n)
    (hn : n < Number.halfWord) : ofIndex n = letters.map Char.toUpper := by
  unfold toIndex? at h
  split at h
  · cases h
  · rename_i hempty
    obtain ⟨r, hread, hr⟩ := Option.map_eq_some_iff.1 h
    obtain ⟨m, rfl, hspell⟩ := spell_of_foldlM (by simpa using hempty) hread
    obtain rfl : m = n := hr
    rw [ofIndex, if_pos hn, hspell]

end SheetBoard.Letters

namespace SheetBoard.Schema

/-! ### Names of headers -/

/-- What a header is called after the names before it: by its own spelling if that is free, and
otherwise by the first of its alternatives that is. -/
inductive Called (names : List String) (header : String) : String → Prop where
  | own : header ∉ names → Called names header header
  | numbered (n : Nat) : header ∈ names → alternative header (n + 1) ∉ names →
      (∀ m < n, alternative header (m + 1) ∈ names) →
      Called names header (alternative header (n + 1))

theorem called_freeName (names : List String) (header : String) :
    Called names header (freeName names header) := by
  have hfree := freeName_notMem names header
  unfold freeName at hfree ⊢
  split
  · rename_i hheader
    rw [if_pos hheader] at hfree
    rw [List.find?_map] at hfree ⊢
    cases hfound : (List.range (names.length + 1)).find?
        ((fun candidate => decide (candidate ∉ names)) ∘ fun n => alternative header (n + 1)) with
    | none =>
        rw [hfound] at hfree
        exact absurd hheader hfree
    | some n =>
        obtain ⟨hn, -, hbefore⟩ := List.find?_range_eq_some.1 hfound
        refine .numbered n hheader (by simpa using hn) fun m hm => ?_
        simpa using hbefore m hm
  · exact .own ‹_›

theorem ofHeaders_concat (headers : List String) (header : String) :
    (ofHeaders (headers ++ [header])).names =
      (ofHeaders headers).names ++ [freeName (ofHeaders headers).names header] := by
  simp [ofHeaders]

theorem size_ofHeaders (headers : List String) : (ofHeaders headers).size = headers.length := by
  induction headers using List.reverseRecOn with
  | nil => rfl
  | append_singleton headers header ih => simpa [size, ofHeaders_concat] using ih

/-- Each header is called by the names of the headers before it, and later ones do not matter. -/
theorem called_ofHeaders {headers : List String} {i : Nat} {header : String}
    (h : headers[i]? = some header) : ∃ name, (ofHeaders headers).names[i]? = some name ∧
      Called ((ofHeaders headers).names.take i) header name := by
  induction headers using List.reverseRecOn with
  | nil => simp at h
  | append_singleton headers last ih =>
      have hsize : (ofHeaders headers).names.length = headers.length := size_ofHeaders headers
      rw [ofHeaders_concat]
      by_cases hi : i < headers.length
      · rw [List.getElem?_append_left hi] at h
        obtain ⟨name, hname, hcalled⟩ := ih h
        have hbefore : i < (ofHeaders headers).names.length := hsize ▸ hi
        refine ⟨name, by rw [List.getElem?_append_left hbefore, hname], ?_⟩
        rwa [List.take_append_of_le_length (Nat.le_of_lt hbefore)]
      · obtain rfl : i = headers.length := by
          have hlt := (List.getElem?_eq_some_iff.1 h).1
          rw [List.length_append, List.length_singleton] at hlt
          omega
        obtain rfl : last = header := by simpa using h
        refine ⟨_, by rw [← hsize, List.getElem?_concat_length], ?_⟩
        rw [← hsize, List.take_left]
        exact called_freeName _ last

/-- What holds of the headers, and of every alternative to one, holds of the names. -/
theorem forall_mem_ofHeaders {p : String → Prop} {headers : List String}
    (hown : ∀ header ∈ headers, p header)
    (hnumbered : ∀ header ∈ headers, ∀ n, p (alternative header (n + 1))) :
    ∀ name ∈ (ofHeaders headers).names, p name := by
  intro name hname
  obtain ⟨i, hi⟩ := List.getElem?_of_mem hname
  have hlt : i < headers.length := by
    rw [← size_ofHeaders]
    exact (List.getElem?_eq_some_iff.1 hi).1
  obtain ⟨called, hcalled, hcases⟩ := called_ofHeaders (List.getElem?_eq_getElem hlt)
  obtain rfl : name = called := Option.some.inj (hi.symm.trans hcalled)
  generalize hheader : headers[i] = header at hcases
  have hmem : header ∈ headers := hheader ▸ List.getElem_mem hlt
  cases hcases with
  | own => exact hown _ hmem
  | numbered n => exact hnumbered _ hmem n

/-! ### Names, places and letters -/

/-- Names, places and letters of the columns stand for each other. Only positions below `2 ^ 63`
have letters. -/
structure OneToOne (s : Schema) : Prop where
  distinct : s.names.Nodup
  place : ∀ name i, s.indexOf? name = some i ↔ s.names[i]? = some name
  nameAt_lettersOf : ∀ name i, s.names[i]? = some name → i < Number.halfWord →
    (s.lettersOf? name).bind s.nameAt? = some name
  lettersOf_nameAt : ∀ letters name, s.nameAt? letters = some name → s.size ≤ Number.halfWord →
    s.lettersOf? name = some (letters.map Char.toUpper)

theorem oneToOne_of_nodup {s : Schema} (h : s.names.Nodup) : s.OneToOne where
  distinct := h
  place _ _ := ⟨getElem?_of_indexOf?, indexOf?_of_getElem? h⟩
  nameAt_lettersOf name i hname hi := by
    have hletters : s.lettersOf? name = some (Letters.ofIndex i) := by
      rw [lettersOf?, indexOf?_of_getElem? h hname]
      rfl
    have hne : Letters.ofIndex i ≠ [] := by
      rw [Letters.ofIndex, if_pos hi]
      exact Letters.spell_ne_nil i
    rw [hletters]
    exact (nameAt?_of_lettersOf? hletters hne).1
  lettersOf_nameAt letters name hname hsize := by
    obtain ⟨i, hi, hplace⟩ := Option.bind_eq_some_iff.1 hname
    have hlt : i < s.size := (List.getElem?_eq_some_iff.1 hplace).1
    rw [lettersOf?, indexOf?_of_getElem? h hplace, Option.map_some,
      Letters.ofIndex_of_toIndex? hi (Nat.lt_of_lt_of_le hlt hsize)]

/-! ### Further columns -/

theorem extend_eq (s : Schema) (name : String) : s.extend name =
    (s.insert name, Letters.ofIndex ((s.indexOf? name).getD s.size)) := by
  unfold extend insert
  cases hindex : s.indexOf? name with
  | none => simp [indexOf?_eq_none_iff.1 hindex]
  | some i => simp [mem_of_indexOf? hindex]

/-- What becomes of a schema that is extended by a name. -/
inductive Extended (s : Schema) (name : String) : Schema × List Char → Prop where
  /-- The name is there: its letters are given, and nothing changes. -/
  | present (letters : List Char) : s.lettersOf? name = some letters →
      Extended s name (s, letters)
  /-- The name is new: it gets the next letters, and all others keep theirs. -/
  | appended (t : Schema) : name ∉ s.names → t.names = s.names ++ [name] →
      t.mapping = s.mapping ++ [(.ofList (Letters.ofIndex s.size), name)] →
      t.lettersOf? name = some (Letters.ofIndex s.size) →
      (∀ other letters, s.lettersOf? other = some letters → t.lettersOf? other = some letters) →
      (∀ other letters, s.nameAt? letters = some other → t.nameAt? letters = some other) →
      Extended s name (t, Letters.ofIndex s.size)

theorem extended_extend (s : Schema) (name : String) : Extended s name (s.extend name) := by
  rw [extend_eq]
  cases hindex : s.indexOf? name with
  | some i =>
      have hinsert : s.insert name = s := by simp [insert, mem_of_indexOf? hindex]
      rw [hinsert]
      exact .present _ (by simp [lettersOf?, hindex])
  | none =>
      have hnew := indexOf?_eq_none_iff.1 hindex
      have hnames : (s.insert name).names = s.names ++ [name] := by simp [insert, hnew]
      refine .appended _ hnew hnames ?_ ?_ ?_ fun other letters hother =>
        nameAt?_insert_of_some hother name
      · simp [mapping, hnames, List.zipIdx_append, size]
      · rw [lettersOf?, indexOf?_insert_self, hindex]
        rfl
      · intro other letters hother
        obtain ⟨i, hi, rfl⟩ := Option.map_eq_some_iff.1 hother
        rw [lettersOf?, indexOf?_insert_of_some hi]
        rfl

/-- The schema after further columns. -/
def extendAll (s : Schema) (added : List String) : Schema :=
  added.foldl (fun s name => (s.extend name).1) s

theorem nodup_extendAll {s : Schema} (h : s.names.Nodup) (added : List String) :
    (s.extendAll added).names.Nodup := by
  induction added generalizing s with
  | nil => exact h
  | cons name added ih =>
      have hstep : (s.extend name).1.names.Nodup := by
        rw [extend_eq]
        exact nodup_insert h name
      exact ih hstep

theorem names_extendAll (s : Schema) (added : List String) :
    s.names <+: (s.extendAll added).names := by
  induction added generalizing s with
  | nil => exact List.prefix_rfl
  | cons name added ih =>
      refine List.IsPrefix.trans ?_ (ih (s.extend name).1)
      rw [extend_eq]
      unfold insert
      split
      · exact List.prefix_rfl
      · exact List.prefix_append _ _

/-! ### A table of places beside the names -/

/-- The names of a schema with a table of their places, so that no name has to be searched. -/
structure Register where
  names : List String
  places : Std.HashMap String Nat

namespace Register

def empty : Register := ⟨[], ∅⟩

def push (r : Register) (name : String) : Register :=
  ⟨r.names ++ [name], r.places.insert name r.names.length⟩

/-- The header, or its first alternative that the table does not have. -/
def freeName (r : Register) (header : String) : String :=
  if r.places.contains header then
    (((List.range (r.names.length + 1)).map fun n => alternative header (n + 1)).find?
      fun candidate => !r.places.contains candidate).getD header
  else header

def ofHeaders (headers : List String) : Register :=
  headers.foldl (fun r header => r.push (r.freeName header)) empty

def extend (r : Register) (name : String) : Register × List Char :=
  match r.places[name]? with
  | some i => (r, Letters.ofIndex i)
  | none => (r.push name, Letters.ofIndex r.names.length)

def extendAll (r : Register) (added : List String) : Register :=
  added.foldl (fun r name => (r.extend name).1) r

/-- The table has the places that the names have in the schema. -/
structure InStep (r : Register) (s : Schema) : Prop where
  names : r.names = s.names
  places : ∀ name, r.places[name]? = s.indexOf? name

namespace InStep

variable {r : Register} {s : Schema} (h : r.InStep s)
include h

theorem contains (name : String) : r.places.contains name = decide (name ∈ s.names) := by
  rw [Std.HashMap.contains_eq_isSome_getElem?, h.places, Bool.eq_iff_iff, decide_eq_true_iff]
  exact isSome_indexOf?

/-- A name that is new is put in both representations, in the same place. -/
theorem push {name : String} (hname : name ∉ s.names) : (r.push name).InStep (s.insert name) where
  names := by simp [Register.push, insert, hname, h.names]
  places other := by
    rw [Register.push, Std.HashMap.getElem?_insert, h.places, h.names, indexOf?_insert]
    by_cases hother : name = other
    · subst hother
      simp [indexOf?_eq_none_iff.2 hname, size]
    · simp [hother]

theorem freeName (header : String) : r.freeName header = Schema.freeName s.names header := by
  unfold Register.freeName Schema.freeName
  simp [h.contains, h.names]

theorem extend (name : String) :
    (r.extend name).1.InStep (s.extend name).1 ∧ (r.extend name).2 = (s.extend name).2 := by
  have hlength : r.names.length = s.size := congrArg List.length h.names
  rw [extend_eq, Register.extend, h.places]
  cases hindex : s.indexOf? name with
  | some i =>
      have hinsert : s.insert name = s := by simp [insert, mem_of_indexOf? hindex]
      exact ⟨by rwa [hinsert], rfl⟩
  | none => exact ⟨h.push (indexOf?_eq_none_iff.1 hindex), congrArg Letters.ofIndex hlength⟩

theorem extendAll (added : List String) : (r.extendAll added).InStep (s.extendAll added) := by
  induction added generalizing r s with
  | nil => exact h
  | cons name added ih => exact ih (h.extend name).1

end InStep

theorem inStep_ofHeaders (headers : List String) :
    (ofHeaders headers).InStep (Schema.ofHeaders headers) := by
  induction headers using List.reverseRecOn with
  | nil => exact ⟨rfl, fun name => by simp [ofHeaders, empty, Schema.ofHeaders, indexOf?]⟩
  | append_singleton headers header ih =>
      have hfree := freeName_notMem (Schema.ofHeaders headers).names header
      have hpush := ih.push hfree
      have hinsert : (Schema.ofHeaders headers).insert
          (Schema.freeName (Schema.ofHeaders headers).names header) =
            Schema.ofHeaders (headers ++ [header]) := by
        rw [insert, if_neg hfree, ← ofHeaders_concat]
      rw [hinsert, ← ih.freeName] at hpush
      simpa [ofHeaders] using hpush

end Register

/-! ### Every schema -/

/-- Whatever the headers are and whatever is added to them, names, places and letters are one to
one, and the table of places keeps in step with the names. There is one column for each header,
which is called by its own spelling if no column before it is. A further column is found or gets the
next letters. -/
theorem oneToOne_extendAll (headers added : List String) :
    ((ofHeaders headers).extendAll added).OneToOne ∧
    ((Register.ofHeaders headers).extendAll added).InStep ((ofHeaders headers).extendAll added) ∧
    (ofHeaders headers).size = headers.length ∧
    (∀ i header, headers[i]? = some header →
      ∃ name, ((ofHeaders headers).extendAll added).names[i]? = some name ∧
        Called (((ofHeaders headers).extendAll added).names.take i) header name) ∧
    ∀ name, Extended ((ofHeaders headers).extendAll added) name
      (((ofHeaders headers).extendAll added).extend name) := by
  refine ⟨oneToOne_of_nodup (nodup_extendAll (nodup_ofHeaders headers) added),
    (Register.inStep_ofHeaders headers).extendAll added, size_ofHeaders headers, ?_,
    extended_extend _⟩
  intro i header hheader
  obtain ⟨name, hname, hcalled⟩ := called_ofHeaders hheader
  obtain ⟨more, hmore⟩ := names_extendAll (ofHeaders headers) added
  have hlt : i < (ofHeaders headers).names.length := (List.getElem?_eq_some_iff.1 hname).1
  refine ⟨name, by rw [← hmore, List.getElem?_append_left hlt, hname], ?_⟩
  rwa [← hmore, List.take_append_of_le_length (Nat.le_of_lt hlt)]

/-- The alternative of a header can be the header of another column. -/
theorem oneToOne_extendAll_clash :
    (["x", "x.1", "x", "x.1"] : List String)[2]? = some "x" ∧
    ((ofHeaders ["x", "x.1", "x", "x.1"]).extendAll ["y", "x"]).names =
      ["x", "x.1", "x.2", "x.1.1", "y"] ∧
    ((ofHeaders ["x", "x.1", "x", "x.1"]).extendAll ["y", "x"]).lettersOf? "x.2" = some ['C'] ∧
    Called ["x", "x.1"] "x" "x.2" := by
  have hnames : ((ofHeaders ["x", "x.1", "x", "x.1"]).extendAll ["y", "x"]).names =
      ["x", "x.1", "x.2", "x.1.1", "y"] := by decide +kernel
  obtain ⟨hone, -, -, hcalled, -⟩ := oneToOne_extendAll ["x", "x.1", "x", "x.1"] ["y", "x"]
  have hthird : ((ofHeaders ["x", "x.1", "x", "x.1"]).extendAll ["y", "x"]).nameAt? ['c'] =
      some "x.2" := by decide +kernel
  obtain ⟨name, hname, hcalled⟩ := hcalled 2 "x" rfl
  rw [hnames] at hname hcalled
  obtain rfl : "x.2" = name := Option.some.inj hname
  exact ⟨rfl, hnames, hone.lettersOf_nameAt _ _ hthird (by rw [size, hnames]; decide), hcalled⟩

end SheetBoard.Schema
