/-! Lists of keyed values, sorted by key. -/

namespace SheetBoard.Association

/-- Puts a value in its place by key. An earlier value of that key is replaced. -/
def insert {β : Type} (key : String) (value : β) : List (String × β) → List (String × β)
  | [] => [(key, value)]
  | (k, v) :: rest =>
    match compare key k with
    | .lt => (key, value) :: (k, v) :: rest
    | .eq => (key, value) :: rest
    | .gt => (k, v) :: insert key value rest

end SheetBoard.Association
