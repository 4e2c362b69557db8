import TapeMachine.Text.Numeral

/-
The grammar of the command line. Before the code, an argument is the separator `--`, a long option,
a cluster of short ones, or the start of the code; from there on every argument is a part of the
code as it stands. No option may be given twice.
-/
namespace TapeMachine.CommandLine

structure RunOptions where
  rails : Bool := false
  file? : Option (List Char) := none
  capacity? : Option Nat := none
  limit? : Option Nat := none
  timeout? : Option Nat := none
  maxSteps? : Option Nat := none
  dump? : Option Nat := none
  help : Bool := false
  code : List (List Char) := []
  deriving DecidableEq, Repr

structure ReplOptions where
  bare : Bool := false
  editor : Bool := false
  rails : Bool := false
  help : Bool := false
  deriving DecidableEq, Repr

inductive Task
  | run (options : RunOptions)
  | repl (options : ReplOptions)
  deriving DecidableEq, Repr

structure Arguments where
  help : Bool := false
  task? : Option Task := none
  deriving DecidableEq, Repr

def raise? (flag : Bool) : Option Bool := if flag then none else some true

def fill? (present value? : Option α) : Option (Option α) :=
  match present, value? with
  | none, some value => some (some value)
  | _, _ => none

/-- A long option as written: its name, and the value after the first equals sign if there is
one. -/
def longParts? : List Char → Option (List Char × Option (List Char))
  | '-' :: '-' :: text =>
    match text.dropWhile (· ≠ '=') with
    | [] => some (text, none)
    | _ :: value => some (text.takeWhile (· ≠ '='), some value)
  | _ => none

def separator : List Char := ['-', '-']

def letters? : List Char → Option (List Char)
  | '-' :: c :: cs => if c = '-' then none else some (c :: cs)
  | _ => none

/-! ### Running a program -/

inductive RunOption
  | rails
  | file
  | capacity
  | limit
  | timeout
  | maxSteps
  | dump
  | help
  deriving DecidableEq, Repr

namespace RunOption

def longNames : List (String × RunOption) :=
  [("guard-rails", .rails), ("file", .file), ("capacity", .capacity), ("limit", .limit),
   ("timeout", .timeout), ("max-steps", .maxSteps), ("dump", .dump), ("help", .help)]

def ofLong? (name : List Char) : Option RunOption := longNames.lookup (String.ofList name)

def ofShort? : Char → Option RunOption
  | 'g' => some .rails
  | 'f' => some .file
  | 'h' => some .help
  | _ => none

def takesValue : RunOption → Bool
  | .rails | .help => false
  | .file | .capacity | .limit | .timeout | .maxSteps | .dump => true

def standardValue? : RunOption → Option (List Char)
  | .dump => some "10".toList
  | _ => none

end RunOption

/-- How an argument reads as long as the code has not begun. -/
inductive RunWord
  | separator
  | long (option : RunOption) (value? : Option (List Char))
  | cluster (letters : List Char)
  | other
  deriving DecidableEq, Repr

def RunWord.ofArgument (argument : List Char) : RunWord :=
  if argument = CommandLine.separator then .separator
  else
    match longParts? argument with
    | some (name, value?) =>
      match RunOption.ofLong? name with
      | some option => .long option value?
      | none => .other
    | none =>
      match letters? argument with
      | some letters =>
        if letters.all fun c => (RunOption.ofShort? c).isSome then .cluster letters else .other
      | none => .other

namespace RunOptions

def raise? (options : RunOptions) : RunOption → Option RunOptions
  | .rails => (CommandLine.raise? options.rails).map fun flag => { options with rails := flag }
  | .help => (CommandLine.raise? options.help).map fun flag => { options with help := flag }
  | _ => none

/-- The limit is the one number that may be written with a minus sign. -/
def assign? (options : RunOptions) (option : RunOption) (value : List Char) : Option RunOptions :=
  let number64? := Text.decimal? Text.maxWord64 value
  match option with
  | .file => (fill? options.file? (some value)).map fun v => { options with file? := v }
  | .capacity => (fill? options.capacity? number64?).map fun v => { options with capacity? := v }
  | .limit =>
    (fill? options.limit? (Text.signedDecimalUpTo? Text.maxWord32 value)).map fun v =>
      { options with limit? := v }
  | .timeout => (fill? options.timeout? number64?).map fun v => { options with timeout? := v }
  | .maxSteps => (fill? options.maxSteps? number64?).map fun v => { options with maxSteps? := v }
  | .dump => (fill? options.dump? number64?).map fun v => { options with dump? := v }
  | .rails | .help => none

/-- Reads a cluster. A letter that takes a value takes the rest of the cluster; if nothing is left
for it, it is returned as still waiting. -/
def readCluster? (options : RunOptions) : List Char → Option (RunOptions × Option RunOption)
  | [] => some (options, none)
  | c :: rest =>
    match RunOption.ofShort? c with
    | none => none
    | some option =>
      if !option.takesValue then
        match options.raise? option with
        | some options => options.readCluster? rest
        | none => none
      else if rest.isEmpty then some (options, some option)
      else (options.assign? option rest).map (·, none)

def readWord? (options : RunOptions) :
    RunWord → Option (RunOptions × Option RunOption)
  | .long option (some value) => (options.assign? option value).map (·, none)
  | .long option none =>
    if option.takesValue then some (options, some option)
    else (options.raise? option).map (·, none)
  | .cluster letters => options.readCluster? letters
  | .separator | .other => none

def settle? (options : RunOptions) : Option RunOption → Option RunOptions
  | none => some options
  | some option => option.standardValue?.bind (options.assign? option)

/-- The waiting option takes the next argument, unless that is an option or the separator. -/
def readFrom? (options : RunOptions) (waiting? : Option RunOption) :
    List (List Char) → Option RunOptions
  | [] => options.settle? waiting?
  | argument :: rest =>
    match RunWord.ofArgument argument, waiting? with
    | .other, some option =>
      match options.assign? option argument with
      | some options => options.readFrom? none rest
      | none => none
    | .other, none => some { options with code := argument :: rest }
    | .separator, waiting? => (options.settle? waiting?).map fun o => { o with code := rest }
    | word, waiting? =>
      match (options.settle? waiting?).bind (·.readWord? word) with
      | some (options, waiting?) => options.readFrom? waiting? rest
      | none => none

def ofArguments? (arguments : List (List Char)) : Option RunOptions :=
  readFrom? {} none arguments

end RunOptions

/-! ### Sessions -/

inductive ReplFlag
  | bare
  | editor
  | rails
  | help
  deriving DecidableEq, Repr

namespace ReplFlag

def longNames : List (String × ReplFlag) :=
  [("bare", .bare), ("editor", .editor), ("guard-rails", .rails), ("help", .help)]

def ofLong? (name : List Char) : Option ReplFlag := longNames.lookup (String.ofList name)

def ofShort? : Char → Option ReplFlag
  | 'g' => some .rails
  | 'h' => some .help
  | _ => none

def ofArgument? (argument : List Char) : Option (List ReplFlag) :=
  match longParts? argument with
  | some (name, none) => (ofLong? name).map ([·])
  | some (_, some _) => none
  | none => (letters? argument).bind (·.mapM ofShort?)

end ReplFlag

namespace ReplOptions

def raise? (options : ReplOptions) : ReplFlag → Option ReplOptions
  | .bare =>
    if options.editor then none
    else (CommandLine.raise? options.bare).map fun flag => { options with bare := flag }
  | .editor =>
    if options.bare then none
    else (CommandLine.raise? options.editor).map fun flag => { options with editor := flag }
  | .rails => (CommandLine.raise? options.rails).map fun flag => { options with rails := flag }
  | .help => (CommandLine.raise? options.help).map fun flag => { options with help := flag }

def readFrom? (options : ReplOptions) : List (List Char) → Option ReplOptions
  | [] => some options
  | argument :: rest =>
    if argument = separator then if rest.isEmpty then some options else none
    else
      match (ReplFlag.ofArgument? argument).bind (·.foldlM raise? options) with
      | some options => options.readFrom? rest
      | none => none

def ofArguments? (arguments : List (List Char)) : Option ReplOptions := readFrom? {} arguments

end ReplOptions

/-! ### The whole line -/

namespace Arguments

def runName : List Char := "run".toList

def replName : List Char := "repl".toList

def helpNames : List (List Char) := ["-h".toList, "--help".toList]

def readFrom? (arguments : Arguments) : List (List Char) → Option Arguments
  | [] => some arguments
  | argument :: rest =>
    if argument = runName then
      (RunOptions.ofArguments? rest).map fun options =>
        { arguments with task? := some (.run options) }
    else if argument = replName then
      (ReplOptions.ofArguments? rest).map fun options =>
        { arguments with task? := some (.repl options) }
    else if argument ∈ helpNames ∧ !arguments.help then
      { arguments with help := true }.readFrom? rest
    else if argument = separator ∧ rest.isEmpty then some arguments
    else none

def ofStrings? (arguments : List String) : Option Arguments :=
  readFrom? {} (arguments.map (·.toList))

end Arguments

end TapeMachine.CommandLine
