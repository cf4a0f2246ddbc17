import BlockPlay.Command.Basic
import BlockPlay.Decimal.Numeral

/-!
Reading command lines. Words are taken from left to right. A value is judged when the next known
word, or the end, has shown that it is complete; an unknown word comes first.
-/
namespace BlockPlay

namespace Command

inductive Word where
  | escape
  | long (name : String) (value : Option String)
  | short (letter : Char) (tail : String)
  | plain (text : String)
  deriving DecidableEq, Repr

/-- The value behind an equals sign. -/
def attached : List Char → Option String
  | '=' :: value => some (String.ofList value)
  | _ => none

def Word.ofString (text : String) : Word :=
  match text.toList with
  | ['-', '-'] => .escape
  | '-' :: '-' :: rest =>
    .long (String.ofList (rest.takeWhile (· ≠ '='))) (attached (rest.dropWhile (· ≠ '=')))
  | '-' :: letter :: rest => .short letter (String.ofList rest)
  | _ => .plain text

inductive Parameter where
  | program
  | game
  | config
  | level
  | stepMillis
  | maxSteps
  deriving DecidableEq, Repr

namespace Parameter

def all : List Parameter := [program, game, config, level, stepMillis, maxSteps]

def long? : Parameter → Option String
  | program => none
  | game => some "game"
  | config => some "config"
  | level => some "level"
  | stepMillis => some "step-ms"
  | maxSteps => some "max-steps"

def short? : Parameter → Option Char
  | game => some 'g'
  | level => some 'l'
  | _ => none

/-- A number within 64 bits; a plus sign may stand in front. -/
def number? (text : String) : Option Nat :=
  let digits := match text.toList with
    | '+' :: rest => rest
    | all => all
  if digits = [] || !digits.all Char.isDigit then none
  else
    let n := Decimal.readDigits 0 digits
    if n < UInt64.size then some n else none

/-- Files need a name, and counts are numbers; a game may be called anything. -/
def check (p : Parameter) (value : String) : Except Usage Unit :=
  match p with
  | program | config | level => if value = "" then .error .emptyValue else .ok ()
  | game => .ok ()
  | stepMillis | maxSteps => if (number? value).isNone then .error .badValue else .ok ()

end Parameter

structure Grammar where
  parameters : List Parameter
  required : List Parameter
  pretty : Bool

/-- The arguments read so far. `pending` is the parameter that the last word belongs to, with its
value unless it is still to come. -/
structure Draft where
  values : List (Parameter × String)
  pretty : Bool
  pending : Option (Parameter × Option String)

namespace Draft

def empty : Draft := ⟨[], false, none⟩

def value? (d : Draft) (p : Parameter) : Option String := d.values.lookup p

def assign (d : Draft) (p : Parameter) (value : String) : Except Usage Draft :=
  if (d.value? p).isSome then .error .repeated
  else (p.check value).map fun _ => { d with values := (p, value) :: d.values, pending := none }

def settle (d : Draft) : Except Usage Draft :=
  match d.pending with
  | none => .ok d
  | some (_, none) => .error .emptyValue
  | some (p, some value) => d.assign p value

def awaits (d : Draft) : Option Parameter :=
  match d.pending with
  | some (p, none) => some p
  | _ => none

def hasProgram (d : Draft) : Bool :=
  (d.value? .program).isSome || (d.pending.map Prod.fst) == some .program

def option (d : Draft) (p : Parameter) (value : Option String) : Except Usage Draft := do
  let d ← d.settle
  match value with
  | some value => d.assign p value
  | none => return { d with pending := some (p, none) }

def place (d : Draft) (grammar : Grammar) (text : String) : Except Usage Draft := do
  if grammar.parameters.contains .program && !d.hasProgram then
    let d ← d.settle
    return { d with pending := some (.program, some text) }
  else throw .unknownArgument

/-- Help is given when what came before it is in order. -/
def help (d : Draft) (value : Option String) : Except Usage Draft := do
  if value.isSome then throw .surplusValue
  let _ ← d.settle
  throw .help

def long (d : Draft) (grammar : Grammar) (name : String) (value : Option String) :
    Except Usage Draft := do
  if name = "help" then d.help value
  else if name = "pretty" && grammar.pretty then
    if value.isSome then throw .surplusValue
    let d ← d.settle
    if d.pretty then throw .repeated
    return { d with pretty := true }
  else
    match grammar.parameters.find? fun p => p.long? = some name with
    | some p => d.option p value
    | none => throw .unknownArgument

/-- The value of a short option may follow at once, with an equals sign or without. -/
def short (d : Draft) (grammar : Grammar) (letter : Char) (tail : String) : Except Usage Draft :=
  if letter = 'h' then d.help none
  else
    match grammar.parameters.find? fun p => p.short? = some letter with
    | some p =>
      d.option p (if tail = "" then none else some ((attached tail.toList).getD tail))
    | none => .error .unknownArgument

def word (d : Draft) (grammar : Grammar) (text : String) : Except Usage Draft :=
  match Word.ofString text with
  | .long name value => d.long grammar name value
  | .short letter tail => d.short grammar letter tail
  | _ =>
    match d.awaits with
    | some p => .ok { d with pending := some (p, some text) }
    | none => d.place grammar text

/-- Takes all words; those after an escape stand for themselves. -/
def words (grammar : Grammar) : (escaped : Bool) → Draft → List String → Except Usage Draft
  | _, d, [] => d.settle
  | true, d, text :: rest =>
    match d.place grammar text with
    | .ok d => words grammar true d rest
    | .error u => .error u
  | false, d, text :: rest =>
    if Word.ofString text = .escape then words grammar true d rest
    else
      match d.word grammar text with
      | .ok d => words grammar false d rest
      | .error u => .error u

end Draft

def Grammar.read (grammar : Grammar) (rest : List String) : Except Usage Draft := do
  let d ← Draft.words grammar false .empty rest
  if grammar.required.any fun p => (d.value? p).isNone then throw .missingArgument
  return d

namespace Draft

def usualGame : String := "maze"

def source (d : Draft) : Source where
  program := (d.value? .program).getD ""
  game := (d.value? .game).getD usualGame
  config := d.value? .config

def number? (d : Draft) (p : Parameter) : Option Nat := (d.value? p).bind Parameter.number?

end Draft

def compileGrammar : Grammar := ⟨[.program, .game, .config], [.program], true⟩

def runGrammar : Grammar := ⟨Parameter.all, [.program, .level], false⟩

def presetsGrammar : Grammar := ⟨[], [], false⟩

/-- The commands by name; each reads the words behind its name. -/
def commands : List (String × (List String → Except Usage Command)) :=
  [("compile", fun rest => (compileGrammar.read rest).map fun d => compile d.source d.pretty),
    ("run", fun rest => (runGrammar.read rest).map fun d =>
      run d.source ((d.value? .level).getD "") ((d.number? .stepMillis).getD 0)
        (d.number? .maxSteps)),
    ("presets", fun rest => (presetsGrammar.read rest).map fun _ => presets)]

/-- Whether there is help on a list of names: none, or one of a command or of help itself. -/
def helpOn (names : List String) : Usage :=
  match names with
  | [] => .help
  | [name] => if name = "help" || (commands.lookup name).isSome then .help else .unknownCommand
  | _ => .unknownCommand

def escaped : List String → Usage
  | [] => .nothing
  | name :: _ =>
    if name = "help" || (commands.lookup name).isSome then .unknownArgument else .unknownCommand

def ofWords : List String → Except Usage Command
  | [] => .error .nothing
  | first :: rest =>
    match Word.ofString first with
    | .escape => .error (escaped rest)
    | .long "help" none => .error .help
    | .long "version" none => .error .version
    | .long name _ =>
      .error (if name = "help" || name = "version" then .surplusValue else .unknownArgument)
    | .short 'h' _ => .error .help
    | .short 'V' _ => .error .version
    | .short .. => .error .unknownArgument
    | .plain name =>
      if name = "help" then .error (helpOn rest)
      else
        match commands.lookup name with
        | some read => read rest
        | none => .error .unknownCommand

end Command

end BlockPlay
