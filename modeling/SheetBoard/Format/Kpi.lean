import SheetBoard.Format.Text

/-! How a key figure is shown on its tile. -/

namespace SheetBoard.Format

open SheetBoard.Script (Value)

/-- The number that a figure stands for. -/
def kpiNumber? : Value → Option Float
  | .number x => some x
  | .text s => Number.read? (Text.trim s.toList)
  | _ => none

/-- A dollar amount without cents. A loss that rounds to nothing has no sign. -/
def dollars (x : Float) : List Char :=
  if x < 0 && Number.toPlaces x 0 != 0 then '-' :: '$' :: Number.withThousands (-x) 0
  else '$' :: Number.withThousands x.abs 0

/-- A figure by the name of its format. Nothing is shown as two dashes, and an unknown format as
plain text. -/
def kpi (v : Value) (format : String) : String :=
  if v.holdsNothing then "--"
  else
    match kpiNumber? v with
    | none => .ofList v.asText
    | some x =>
      match String.ofList (Text.lower (Text.trim format.toList)) with
      | "number" => .ofList (Number.withThousands x 0)
      | "currency" | "currency:usd" => .ofList (dollars x)
      | "percentage" => .ofList (Number.withPlaces x 1 ++ ['%'])
      | "decimal" => .ofList (Number.withPlaces x 1)
      | _ => .ofList v.asText

end SheetBoard.Format
