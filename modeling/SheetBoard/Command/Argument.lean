/-! Arguments of a command line: flags and options by name or by letter, and values. -/

namespace SheetBoard.Command

/-- Why no command is run. -/
inductive Stop where
  | version
  | help
  /-- The arguments make no command. -/
  | usage
  deriving Repr, DecidableEq

/-- A flag or an option that may be given. -/
structure Parameter where
  name : String
  letter : Option Char := none
  takesValue : Bool := true
  /-- The parameter ends the reading at once. -/
  stop : Option Stop := none

inductive Argument where
  | flag (name : String)
  | option (name value : String)
  | value (text : String)
  deriving Repr, DecidableEq

/-- What an argument looks like. -/
inductive Shape where
  | value
  /-- Two dashes: all that follows are values. -/
  | separator
  | name (body : List Char)
  | letters (body : List Char)
  deriving Repr, DecidableEq

/-- A single dash is a value, and so is a name that is empty. -/
def shape : List Char → Shape
  | ['-', '-'] => .separator
  | '-' :: '-' :: '=' :: _ => .value
  | '-' :: '-' :: body => .name body
  | ['-'] => .value
  | '-' :: body => .letters body
  | _ => .value

/-- What one argument gives, and the option that still waits for its value. -/
abbrev Given := List Argument × Option String

/-- A parameter without a value. -/
def Parameter.bare (p : Parameter) : Except Stop Given :=
  match p.stop with
  | some stop => .error stop
  | none => .ok (if p.takesValue then ([], some p.name) else ([.flag p.name], none))

/-- Reads a name, with its value after an equals sign if it has one. -/
def readName (parameters : List Parameter) (body : List Char) : Except Stop Given :=
  match parameters.find? fun p => p.name.toList == body.takeWhile (· ≠ '=') with
  | none => .error .usage
  | some p =>
    match body.dropWhile (· ≠ '=') with
    | _ :: v => if p.takesValue then .ok ([.option p.name (.ofList v)], none) else .error .usage
    | [] => p.bare

/-- The value that stands right after the letter of an option, maybe behind an equals sign. -/
def attachedValue : List Char → List Char
  | '=' :: v => v
  | v => v

/-- Reads letters: flags, and at last perhaps an option, with its value if there is more. -/
def readLetters (parameters : List Parameter) : List Char → Except Stop Given
  | [] => .ok ([], none)
  | c :: rest =>
    match parameters.find? fun p => p.letter == some c with
    | none => .error .usage
    | some p =>
      if p.takesValue && !rest.isEmpty then
        .ok ([.option p.name (.ofList (attachedValue rest))], none)
      else do
        let (first, awaiting) ← p.bare
        let (others, last) ← readLetters parameters rest
        return (first ++ others, awaiting.or last)

/-- Reads all arguments. An option that waits for its value takes the next argument, which must be a
value. -/
def readArguments (parameters : List Parameter) (awaiting : Option String) :
    List String → Except Stop (List Argument)
  | [] => if awaiting.isSome then .error .usage else .ok []
  | arg :: rest =>
    match shape arg.toList, awaiting with
    | .value, some name => (readArguments parameters none rest).map (.option name arg :: ·)
    | .value, none => (readArguments parameters none rest).map (.value arg :: ·)
    | _, some _ => .error .usage
    | .separator, none => .ok (rest.map .value)
    | .name body, none => do
      let (first, awaiting) ← readName parameters body
      let others ← readArguments parameters awaiting rest
      return first ++ others
    | .letters body, none => do
      let (first, awaiting) ← readLetters parameters body
      let others ← readArguments parameters awaiting rest
      return first ++ others

/-- Passes over the flags in front and gives the first value, with the arguments after it. -/
def readLeading (parameters : List Parameter) : List String → Except Stop (String × List String)
  | [] => .error .usage
  | arg :: rest =>
    match shape arg.toList with
    | .value => .ok (arg, rest)
    | .separator => .error .usage
    | .name body => do
      let _ ← readName parameters body
      readLeading parameters rest
    | .letters body => do
      let _ ← readLetters parameters body
      readLeading parameters rest

/-- The values given for an option. -/
def optionValues (name : String) (args : List Argument) : List String :=
  args.filterMap fun
    | .option n v => if n = name then some v else none
    | _ => none

/-- The value of an option that may be given once. -/
def optionValue? (name : String) (args : List Argument) : Except Stop (Option String) :=
  match optionValues name args with
  | [] => .ok none
  | [v] => .ok (some v)
  | _ => .error .usage

/-- The value of an option that must be given once. -/
def optionValue (name : String) (args : List Argument) : Except Stop String := do
  let some v ← optionValue? name args | .error .usage
  return v

/-- A flag that may be given once. -/
def hasFlag (name : String) (args : List Argument) : Except Stop Bool :=
  match args.count (.flag name) with
  | 0 => .ok false
  | 1 => .ok true
  | _ => .error .usage

/-- The plain values. -/
def plainValues (args : List Argument) : List String :=
  args.filterMap fun
    | .value v => some v
    | _ => none

end SheetBoard.Command
