import AssetBake.CommandLine

/-!
# Reading command lines

Arguments are read from left to right. The value of an option is looked at when the next option comes,
or at the end, so that an unknown argument in between is what gets reported.
-/

namespace AssetBake.CommandLine

namespace Given

/-- A single value, refused if there is one already. -/
def once {α : Type} (old : Option α) (value : Except Refusal α) : Except Refusal (Option α) :=
  match old with
  | some _ => .error .argumentConflict
  | none => value.map some

/-- A path that is not empty. -/
def pathValue (value : List Char) : Except Refusal Path :=
  if value.isEmpty then .error .invalidValue else .ok (.ofString (String.ofList value))

def wordValue {α : Type} (words : List (String × α)) (value : List Char) : Except Refusal α :=
  match words.find? fun w => w.1.toList == value with
  | some (_, a) => .ok a
  | none => .error .invalidValue

def put (given : Given) (setting : Setting) (value : List Char) : Except Refusal Given := do
  let layer := given.layer
  match setting with
  | .config => return { given with config := ← once given.config (pathValue value) }
  | .input =>
    return { given with layer := { layer with input := ← once layer.input (pathValue value) } }
  | .output =>
    return { given with layer := { layer with output := ← once layer.output (pathValue value) } }
  | .lead => return { given with layer := { layer with lead := ← once layer.lead (.ok value) } }
  | .joiner =>
    return { given with layer := { layer with joiner := ← once layer.joiner (.ok value) } }
  | .delimiter =>
    return { given with layer := { layer with delimiter := ← once layer.delimiter (.ok value) } }
  | .table => return { given with layer := { layer with table := ← once layer.table (.ok value) } }
  | .exclude => return { given with layer := { layer with exclude := layer.exclude ++ [value] } }
  | .strategy =>
    let strategy := wordValue [("raw", Strategy.raw), ("escaped", .escaped)] value
    return { given with layer := { layer with strategy := ← once layer.strategy strategy } }
  | .names =>
    let names := wordValue [("reject", NamePolicy.reject), ("sanitize", .sanitize)] value
    return { given with layer := { layer with names := ← once layer.names names } }
  | .guard =>
    let guard := wordValue [("pragma", GuardStyle.pragma), ("macro", .define)] value
    return { given with layer := { layer with guard := ← once layer.guard guard } }

/-- Looks at the value of the option before. -/
def settle (given : Given) : Except Refusal Given :=
  match given.pending with
  | none => .ok given
  | some (_, none) => .error .invalidValue
  | some (setting, some value) => { given with pending := none }.put setting value

def turnOn (given : Given) (switch : Switch) : Except Refusal Given := do
  let given ← given.settle
  match switch with
  | .json => if given.json then throw .argumentConflict else return { given with json := true }
  | .verbose => return { given with verbose := min (given.verbose + 1) 255 }
  | .quiet => if given.quiet then throw .argumentConflict else return { given with quiet := true }
  | .followLinks =>
    if given.layer.followLinks then throw .argumentConflict
    else return { given with layer := { given.layer with followLinks := true } }
  | .help => throw .displayHelp
  | .version => throw .displayVersion

/-- Begins an option with a value; the value may be attached to it. -/
def begin (given : Given) (setting : Setting) (attached : Option (List Char)) :
    Except Refusal Given := do
  let given ← given.settle
  match attached with
  | some value => given.put setting value
  | none => return { given with pending := some (setting, none) }

/-- Checks the options on one side of the command when all of them have been read. -/
def finish (given : Given) : Except Refusal Given := do
  let given ← given.settle
  if given.quiet ∧ given.verbose ≠ 0 then throw .argumentConflict
  return given

def awaitsValue (given : Given) : Bool :=
  match given.pending with
  | some (_, none) => true
  | _ => false

def receive (given : Given) (value : List Char) : Given :=
  { given with pending := given.pending.map fun (setting, _) => (setting, some value) }

/-- Reads an argument that begins with two hyphens, without these. -/
def readLong (given : Given) (behindCommand : Bool) (argument : List Char) :
    Except Refusal Given :=
  let name := argument.takeWhile (· ≠ '=')
  let attached := (argument.dropWhile (· ≠ '=')).tail?
  match longOption? behindCommand name with
  | none => .error .unknownArgument
  | some (.setting setting) => given.begin setting attached
  | some (.switch switch) =>
    match attached with
    | some _ => .error .tooManyValues
    | none => given.turnOn switch

/-- Reads short options that stand together behind one hyphen. -/
def readShorts (given : Given) (behindCommand : Bool) : List Char → Except Refusal Given
  | [] => .ok given
  | c :: rest =>
    match shortOption? behindCommand c with
    | none => .error .unknownArgument
    | some (.switch switch) => do readShorts (← given.turnOn switch) behindCommand rest
    | some (.setting setting) =>
      match rest with
      | [] => given.begin setting none
      | '=' :: value => given.begin setting (some value)
      | value => given.begin setting (some value)

end Given

/-- Where reading stops: at the end, or at a command with the arguments behind it. -/
structure Stretch where
  given : Given
  next : Option (Command × List (List Char))

/-- What an argument gets that is neither an option nor a value. -/
def strayArgument (behindCommand afterDashes : Bool) (argument : List Char) : Refusal :=
  if behindCommand then .unknownArgument
  else if afterDashes ∧ ((Command.ofWord? argument).isSome ∨ argument = "help".toList) then
    .unknownArgument
  else .invalidSubcommand

/-- The refusal of a request for help, which may name a command. -/
def helpRefusal (arguments : List (List Char)) : Refusal :=
  match arguments with
  | [] => .displayHelp
  | [word] =>
    if (Command.ofWord? word).isSome ∨ word = "help".toList then .displayHelp
    else .invalidSubcommand
  | _ => .invalidSubcommand

def readStretch (behindCommand : Bool) (given : Given) :
    List (List Char) → Except Refusal Stretch
  | [] => .ok ⟨given, none⟩
  | argument :: rest =>
    let command? :=
      if behindCommand ∨ given.awaitsValue then none else Command.ofWord? argument
    match command? with
    | some command => .ok ⟨given, some (command, rest)⟩
    | none =>
      if ¬behindCommand ∧ ¬given.awaitsValue ∧ argument = "help".toList then
        .error (helpRefusal rest)
      else
        match argument with
        | ['-', '-'] =>
          match rest with
          | [] => .ok ⟨given, none⟩
          | stray :: _ => .error (strayArgument behindCommand true stray)
        | '-' :: '-' :: long => do
          readStretch behindCommand (← given.readLong behindCommand long) rest
        | '-' :: c :: shorts => do
          readStretch behindCommand (← given.readShorts behindCommand (c :: shorts)) rest
        | _ =>
          if given.awaitsValue then readStretch behindCommand (given.receive argument) rest
          else .error (strayArgument behindCommand false argument)

/-- What the arguments ask for. The side behind the command is checked first. -/
def parse (arguments : List (List Char)) : Except Refusal Arguments := do
  let front ← readStretch false {} arguments
  match front.next with
  | none => return .of (← front.given.finish) none {}
  | some (command, rest) =>
    let behind ← (← readStretch true {} rest).given.finish
    return .of (← front.given.finish) (some command) behind

end AssetBake.CommandLine
