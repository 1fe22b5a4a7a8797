import SheetBoard.Script.Library.Math
import SheetBoard.Script.Library.Range
import SheetBoard.Script.Library.Text
import SheetBoard.Script.Library.Time

/-! The functions that scripts can call: their names, how many arguments they take, and what they
do. -/

namespace SheetBoard.Script

inductive Builtin where
  | left | right | mid | value | isNumber | search | searchIndex | text | length | toText
  | time | hour | timeValue | year | month | today
  | round | abs | floor | truncate | choose
  | choice | allTrue | anyTrue
  | sum | average | count | countFilled | greatest | least | sumIf | countIf | countIfs
  | unique | index | lookup | growth | columnFrom | cellAt
  deriving Repr, DecidableEq

/-- The names of a function and the bounds on its number of arguments. -/
structure Signature where
  names : List String
  least : Nat
  most : Option Nat
  deriving Repr, DecidableEq

namespace Builtin

/-- Each function has the name that spreadsheets use and the one that column scripts use. -/
def signature : Builtin → Signature
  | .left => ⟨["LEFT", "excelLeft"], 1, some 2⟩
  | .right => ⟨["RIGHT", "excelRight"], 1, some 2⟩
  | .mid => ⟨["MID", "excelMid"], 3, some 3⟩
  | .value => ⟨["VALUE", "parseFloat", "float"], 1, some 1⟩
  | .isNumber => ⟨["ISNUMBER", "excelIsNumber"], 1, some 1⟩
  | .search => ⟨["SEARCH"], 2, some 3⟩
  | .searchIndex => ⟨["excelSearch"], 2, some 3⟩
  | .text => ⟨["TEXT", "excelText"], 2, some 2⟩
  | .length => ⟨["LEN", "len"], 1, some 1⟩
  | .toText => ⟨["str", "String"], 1, some 1⟩
  | .time => ⟨["TIME", "excelTime"], 2, some 3⟩
  | .hour => ⟨["HOUR", "excelHour"], 1, some 1⟩
  | .timeValue => ⟨["TIMEVALUE", "excelTimeValue"], 1, some 1⟩
  | .year => ⟨["YEAR", "arrayMapYear"], 1, some 1⟩
  | .month => ⟨["MONTH", "getMonth"], 1, some 1⟩
  | .today => ⟨["TODAY", "excelToday"], 0, some 0⟩
  | .round => ⟨["ROUND", "Math.round"], 1, some 2⟩
  | .abs => ⟨["ABS", "Math.abs"], 1, some 1⟩
  | .floor => ⟨["INT", "Math.floor"], 1, some 1⟩
  | .truncate => ⟨["int"], 1, some 1⟩
  | .choose => ⟨["CHOOSE", "excelChoose"], 2, none⟩
  | .choice => ⟨["IF", "excelIf"], 2, some 3⟩
  | .allTrue => ⟨["AND", "excelAnd"], 1, none⟩
  | .anyTrue => ⟨["OR", "excelOr"], 1, none⟩
  | .sum => ⟨["SUM", "arraySum"], 1, none⟩
  | .average => ⟨["AVERAGE", "AVG", "arrayAvg"], 1, none⟩
  | .count => ⟨["COUNT", "arrayCount"], 1, none⟩
  | .countFilled => ⟨["COUNTA", "arrayCountA"], 1, none⟩
  | .greatest => ⟨["MAX", "arrayMax"], 1, none⟩
  | .least => ⟨["MIN", "arrayMin"], 1, none⟩
  | .sumIf => ⟨["SUMIF", "arraySumIf"], 2, some 3⟩
  | .countIf => ⟨["COUNTIF", "arrayCountIf"], 2, some 2⟩
  | .countIfs => ⟨["COUNTIFS", "arrayCountIfs"], 2, none⟩
  | .unique => ⟨["UNIQUE", "arrayUnique"], 1, some 2⟩
  | .index => ⟨["INDEX", "arrayIndex"], 2, some 3⟩
  | .lookup => ⟨["MATCH", "arrayMatch"], 2, some 3⟩
  | .growth => ⟨["arrayPercentageGrowth"], 2, some 2⟩
  | .columnFrom => ⟨["getColumnData"], 1, some 2⟩
  | .cellAt => ⟨["getCellValue"], 2, some 2⟩

def all : List Builtin := [
  .left, .right, .mid, .value, .isNumber, .search, .searchIndex, .text, .length, .toText, .time,
  .hour, .timeValue, .year, .month, .today, .round, .abs, .floor, .truncate, .choose, .choice,
  .allTrue, .anyTrue, .sum, .average, .count, .countFilled, .greatest, .least, .sumIf, .countIf,
  .countIfs, .unique, .index, .lookup, .growth, .columnFrom, .cellAt]

/-- The function with exactly this name. -/
def named? (name : String) : Option Builtin := all.find? (·.signature.names.contains name)

/-- The function that a call means: by the name as it stands, or by the name in capitals. It comes
with the name that was found. -/
def find? (name : String) : Option (String × Builtin) :=
  let capitals := String.ofList (Text.upper name.toList)
  ((named? name).map (name, ·)).orElse fun _ => (named? capitals).map (capitals, ·)

/-- The value of a call. -/
def apply (ctx : Context) (args : List Value) : Builtin → Except ScriptError Value
  | .left => .ok (Library.left args)
  | .right => .ok (Library.right args)
  | .mid => .ok (Library.mid args)
  | .value => .ok (Library.value args)
  | .isNumber => .ok (Library.isNumber args)
  | .search => .ok (Library.search args)
  | .searchIndex => .ok (Library.searchIndex args)
  | .text => .ok (Library.formatted args)
  | .length => .ok (Library.size args)
  | .toText => .ok (Library.toText args)
  | .time => .ok (Library.time args)
  | .hour => fromFirst "HOUR" args Library.hour
  | .timeValue => fromFirst "TIMEVALUE" args Library.timeValue
  | .year => fromFirst "YEAR" args Library.year
  | .month => fromFirst "MONTH" args Library.month
  | .today => .ok (Library.today ctx)
  | .round => fromFirst "ROUND" args fun v => Library.round v (wholeArgument args 1 0)
  | .abs => fromFirst "ABS" args Library.abs
  | .floor => fromFirst "INT" args Library.floor
  | .truncate => fromFirst "int" args Library.truncate
  | .choose => .ok (Library.choose args)
  | .choice => fromFirst "IF" args fun condition =>
    Library.choice condition (argument args 1) (args.getD 2 (.boolean false))
  | .allTrue => .ok (Library.allTrue args)
  | .anyTrue => .ok (Library.anyTrue args)
  | .sum => .ok (Library.sum args)
  | .average => .ok (Library.average args)
  | .count => .ok (Library.count args)
  | .countFilled => .ok (Library.countFilled args)
  | .greatest => .ok (Library.greatest args)
  | .least => .ok (Library.least args)
  | .sumIf => fromFirstTwo "SUMIF" args fun range criterion =>
    Library.sumIf range criterion args[2]?
  | .countIf => fromFirstTwo "COUNTIF" args Library.countIf
  | .countIfs => Library.countIfs args
  | .unique => fromFirst "UNIQUE" args fun v => Library.unique v (argument args 1)
  | .index => fromFirst "INDEX" args fun v => Library.index v (wholeArgument args 1 0)
  | .lookup => fromFirstTwo "MATCH" args Library.lookup
  | .growth => fromFirstTwo "arrayPercentageGrowth" args Library.growth
  | .columnFrom => fromFirst "getColumnData" args fun column =>
    Library.columnFrom ctx column (wholeArgument args 1 2)
  | .cellAt => fromFirst "getCellValue" args fun column =>
    Library.cellAt ctx column (wholeArgument args 1 (-1))

end Builtin

end SheetBoard.Script
