import SheetBoard.Format.Text
import SheetBoard.Proofs.Calendar.Reading

/-! Dates that were written by a format code are read back. Where the day comes first, it is taken
for the month if it can be one. -/

namespace SheetBoard.Format

open SheetBoard.Calendar (Date Part Written IsRun)

/-! ### The pieces of a date as they are written -/

/-- The year with four digits. -/
def isoPiece (d : Date) : Part → List Char
  | .year => Calendar.padded 4 d.year.toNat
  | .month => Calendar.padded 2 d.month
  | .day => Calendar.padded 2 d.day

/-- The year without zeros in front. -/
def shownPiece (d : Date) : Part → List Char
  | .year => yearText d
  | .month => monthText d
  | .day => dayText d

section

variable {d : Date} (hyear : 0 ≤ d.year ∧ d.year ≤ 9999)
include hyear

theorem iso_eq : d.iso = Calendar.join '-' (isoPiece d) .year .month .day := by
  simp [Date.iso, hyear, Calendar.join, isoPiece]

theorem toNat_year_lt : d.year.toNat < 10 ^ 4 := by omega

theorem yearText_eq : yearText d = Number.digitsOf d.year.toNat := by
  have hsign : ¬d.year < 0 := by omega
  have habs : d.year.natAbs = d.year.toNat := by omega
  simp [yearText, Number.signed, hsign, habs]

variable (hmonth : d.month < 100) (hday : d.day < 100)
include hmonth hday

theorem written_isoPiece : Written d (isoPiece d) where
  run p := by
    cases p with
    | year => exact IsRun.padded (toNat_year_lt hyear) (by decide)
    | month => exact IsRun.padded hmonth (by decide)
    | day => exact IsRun.padded hday (by decide)
  year := by
    rw [isoPiece, Calendar.natOfDigits_padded]
    omega
  month := by rw [isoPiece, Calendar.natOfDigits_padded]
  day := by rw [isoPiece, Calendar.natOfDigits_padded]

theorem written_shownPiece : Written d (shownPiece d) where
  run p := by
    cases p with
    | year =>
        rw [shownPiece, yearText_eq hyear]
        exact IsRun.digitsOf (toNat_year_lt hyear) (by decide)
    | month => exact IsRun.padded hmonth (by decide)
    | day => exact IsRun.padded hday (by decide)
  year := by
    rw [shownPiece, yearText_eq hyear, Number.natOfDigits_digitsOf]
    omega
  month := by rw [shownPiece, monthText, Calendar.natOfDigits_padded]
  day := by rw [shownPiece, dayText, Calendar.natOfDigits_padded]

end

/-! ### Dates by a format code -/

/-- A date by a format code, as it is shown from its text with dashes. -/
def dateText (d : Date) (code : String) : List Char := text (.text (.ofList d.iso)) code.toList

theorem dateText_eq {d : Date} (hd : d.isValid = true) (hyear : 0 ≤ d.year ∧ d.year ≤ 9999)
    {code : String} (hcode : normalCode code.toList = code) {shown : List Char}
    (hshown : date? d code = some shown) : dateText d code = shown := by
  obtain ⟨hmonth, hday⟩ := d.bounds_of_isValid hd
  have hwritten : Written d (isoPiece d) := written_isoPiece hyear (by omega) (by omega)
  have htrim : Text.trim (Script.Value.text (.ofList d.iso)).asText = d.iso := by
    rw [Script.Value.asText, String.toList_ofList, iso_eq hyear, hwritten.trim_join]
  have hread : Calendar.read? d.iso = some d.start := by
    rw [iso_eq hyear, hwritten.read?_dashes hd]
  have hdate : (Calendar.read? d.iso).bind (fun m => date? m.date code) = some shown := by
    rw [hread]
    exact hshown
  simp only [dateText, text, hcode, htrim, hdate]
  rfl

theorem normalCode_dates :
    ∀ code ∈ ["yyyy-mm-dd", "mm/dd/yyyy", "dd/mm/yyyy"], normalCode code.toList = code := by
  decide +kernel

section

variable (d : Date)

theorem date?_year_first :
    date? d "yyyy-mm-dd" = some (Calendar.join '-' (shownPiece d) .year .month .day) := by
  simp [date?, Calendar.join, shownPiece]

theorem date?_month_first :
    date? d "mm/dd/yyyy" = some (Calendar.join '/' (shownPiece d) .month .day .year) := by
  simp [date?, Calendar.join, shownPiece]

theorem date?_day_first :
    date? d "dd/mm/yyyy" = some (Calendar.join '/' (shownPiece d) .day .month .year) := by
  simp [date?, Calendar.join, shownPiece]

/-- Day and month exchanged. -/
def swapped : Date := ⟨d.year, d.day, d.month⟩

/-- What is written with the day first is the exchanged date with the month first. -/
theorem join_day_first : Calendar.join '/' (shownPiece d) .day .month .year =
    Calendar.join '/' (shownPiece (swapped d)) .month .day .year := rfl

variable {d}

/-- A day that is the number of a month gives a date when it is exchanged with the month: every
month has more than twelve days. -/
theorem isValid_swapped (h : d.isValid = true) (hday : d.day ≤ 12) :
    (swapped d).isValid = true := by
  obtain ⟨hyear, hmonth, hfirst, -⟩ := d.isValid_iff.1 h
  have hdays := Calendar.daysInMonth_bounds d.year d.day
  have hlast : d.month ≤ Calendar.daysInMonth d.year d.day := by omega
  exact (swapped d).isValid_iff.2 ⟨hyear, ⟨hfirst, hday⟩, hmonth.1, hlast⟩

theorem start_swapped : (swapped d).start = d.start ↔ d.day = d.month := by
  obtain ⟨year, month, day⟩ := d
  simp only [swapped, Date.start, Calendar.Moment.mk.injEq, Date.mk.injEq]
  tauto

end

/-- A date in the years 0 to 9999 that is written by a format code is read back at midnight, with
the year or the month first. With the day first it is read back if the day cannot be a month, or is
the month; else day and month are exchanged. -/
theorem read?_dateText {d : Date} (hd : d.isValid = true) (hyear : 0 ≤ d.year ∧ d.year ≤ 9999) :
    Calendar.read? (dateText d "yyyy-mm-dd") = some d.start ∧
    Calendar.read? (dateText d "mm/dd/yyyy") = some d.start ∧
    (Calendar.read? (dateText d "dd/mm/yyyy") = some d.start ↔ 12 < d.day ∨ d.day = d.month) ∧
    (¬(12 < d.day ∨ d.day = d.month) →
      Calendar.read? (dateText d "dd/mm/yyyy") = some (swapped d).start) := by
  obtain ⟨hmonth, hday⟩ := d.bounds_of_isValid hd
  have hwritten : Written d (shownPiece d) := written_shownPiece hyear (by omega) (by omega)
  have hcode := normalCode_dates
  rw [dateText_eq hd hyear (hcode _ (by simp)) (date?_year_first d),
    dateText_eq hd hyear (hcode _ (by simp)) (date?_month_first d),
    dateText_eq hd hyear (hcode _ (by simp)) (date?_day_first d)]
  refine ⟨hwritten.read?_dashes hd, hwritten.read?_month_first hd, ?_⟩
  by_cases hlate : 12 < d.day
  · simp [hwritten.read?_day_first hd hlate, hlate]
  · have hexchanged : Written (swapped d) (shownPiece (swapped d)) :=
      written_shownPiece hyear (by simp only [swapped]; omega) (by simp only [swapped]; omega)
    rw [join_day_first, hexchanged.read?_month_first (isValid_swapped hd (by omega))]
    simp [start_swapped, hlate]

/-- A leap day in a year of three digits, and a day that can be a month. -/
theorem read?_dateText_leap :
    let d : Date := ⟨804, 2, 29⟩
    let e : Date := ⟨2024, 3, 4⟩
    (d.isValid = true ∧ e.isValid = true) ∧
      Calendar.read? (dateText d "dd/mm/yyyy") = some d.start ∧
      Calendar.read? (dateText e "dd/mm/yyyy") = some (swapped e).start := by
  intro d e
  have hd : d.isValid = true := by decide
  have he : e.isValid = true := by decide
  obtain ⟨-, -, hleap, -⟩ := read?_dateText hd (by decide)
  obtain ⟨-, -, -, hexchanged⟩ := read?_dateText he (by decide)
  exact ⟨⟨hd, he⟩, hleap.2 (by decide), hexchanged (by decide)⟩

end SheetBoard.Format
