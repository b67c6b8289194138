/-
Workflow.Cli.Arguments — command lines.

A command line has switches and names one command, which has switches of
its own and one word it is about. The switches of the whole program may
also stand behind the command. Words behind two dashes are never switches.

* `Switch`, `Level` — what may stand on a command line.
* `Level.read` — the words of one level.
* `CommandLine`, `CommandLine.parse` — a whole command line.
-/
import Workflow.Number.Reading

namespace Workflow

/-- Why a command line is refused, or what it asks for instead of a command. -/
inductive ArgumentError where
  | unknownArgument
  | missingArgument
  | conflict
  | missingValue
  | invalidValue
  | needlessValue
  | unknownCommand
  | missingCommand
  | nothingGiven
  | help
  | version
deriving DecidableEq, Repr

/-- What a value has to be. -/
inductive ValueKind where
  | text
  /-- A path is not empty. -/
  | path
  | count
deriving DecidableEq, Repr

/-- What a switch does: set a flag, take one value, collect values, or end everything. -/
inductive SwitchAction where
  | flag
  | value (kind : ValueKind)
  | collect (kind : ValueKind)
  | help
  | version
deriving DecidableEq, Repr

/-- A switch. -/
structure Switch where
  long : String
  short : Option Char
  action : SwitchAction
deriving DecidableEq, Repr

/-- What may stand on one level of a command line: switches and either one word or a command. -/
structure Level where
  switches : List Switch
  word : Option (String × ValueKind)
  commands : List String
  /-- Switches that exclude each other. -/
  exclusive : List (String × String)
deriving DecidableEq, Repr

/-! ## Reading the words of a level -/

/-- A switch or word whose value is being collected. -/
structure Pending where
  name : String
  action : SwitchAction
  values : List String
deriving DecidableEq, Repr

/-- What has been read of a level. -/
structure Reading where
  /-- The switches and words given, with their values. -/
  given : List (String × List String)
  pending : Option Pending
  /-- Whether the next word is the value of the pending switch. -/
  awaiting : Bool
  /-- Whether two dashes have been read. -/
  trailing : Bool
  /-- Whether the word of the level has been read. -/
  hasWord : Bool
deriving DecidableEq, Repr

namespace Reading

/-- Nothing. -/
def empty : Reading := ⟨[], none, false, false, false⟩

/-- The values of a switch or word. -/
def values? (r : Reading) (name : String) : Option (List String) :=
  (r.given.find? fun (n, _) => n = name).map (·.2)

/-- Numbers of steps stay below this bound. -/
def countBound : Nat := Nat.pow 2 64

/-- What is wrong with a value. -/
def valueError? (kind : ValueKind) (value : String) : Option ArgumentError :=
  match kind with
  | .text => none
  | .path => if value.isEmpty then some .missingValue else none
  | .count =>
    match Number.readNat? value.toList with
    | some n => if n < countBound then none else some .invalidValue
    | none => some .invalidValue

/-- Take a switch or word with its values. -/
def accept (r : Reading) (p : Pending) : Except ArgumentError Reading :=
  let isNew := (r.values? p.name).isNone
  let checked (kind : ValueKind) (r : Reading) : Except ArgumentError Reading :=
    match p.values with
    | [v] =>
      match valueError? kind v with
      | some e => .error e
      | none => .ok r
    | _ => .error .missingValue
  match p.action with
  | .help => .error .help
  | .version => .error .version
  | .flag => if isNew then .ok { r with given := r.given ++ [(p.name, [])] } else .error .conflict
  | .value kind =>
    if p.values.isEmpty then .error .missingValue
    else if isNew then checked kind { r with given := r.given ++ [(p.name, p.values)] }
    else .error .conflict
  | .collect kind =>
    if isNew then checked kind { r with given := r.given ++ [(p.name, p.values)] }
    else
      checked kind { r with
        given := r.given.map fun (n, vs) => if n = p.name then (n, vs ++ p.values) else (n, vs) }

/-- Take what is pending. -/
def flush (r : Reading) : Except ArgumentError Reading :=
  match r.pending with
  | none => .ok r
  | some p => accept { r with pending := none, awaiting := false } p

/-- Take a switch at once, after what is pending. -/
def take (r : Reading) (s : Switch) (values : List String) : Except ArgumentError Reading := do
  let r ← r.flush
  accept { r with awaiting := false } ⟨s.long, s.action, values⟩

/-- Take a switch whose value is attached to it or comes as the next word. -/
def takeValue (r : Reading) (s : Switch) (attached : Option String) :
    Except ArgumentError Reading :=
  match attached with
  | some v => r.take s [v]
  | none => do
    let r ← r.flush
    return { r with pending := some ⟨s.long, s.action, []⟩, awaiting := true }

end Reading

namespace Switch

/-- Whether a switch takes a value. -/
def takesValue (s : Switch) : Bool :=
  match s.action with
  | .value _ | .collect _ => true
  | _ => false

end Switch

namespace Level

/-- Read a switch by its long name, with the value behind an equals sign. -/
def readLong (l : Level) (r : Reading) (body : List Char) : Except ArgumentError Reading :=
  let name := body.takeWhile (· != '=')
  let attached :=
    match body.dropWhile (· != '=') with
    | '=' :: value => some (String.ofList value)
    | _ => none
  match l.switches.find? fun s => s.long.toList = name with
  | none => .error .unknownArgument
  | some s =>
    if s.takesValue then r.takeValue s attached
    else if attached.isSome then .error .needlessValue
    else r.take s []

/-- Read switches by their short names. What follows one that takes a value is the value. -/
def readShort (l : Level) (r : Reading) : List Char → Except ArgumentError Reading
  | [] => .ok r
  | c :: rest =>
    match l.switches.find? fun s => s.short = some c with
    | none => .error .unknownArgument
    | some s =>
      if s.takesValue then
        let attached :=
          match rest with
          | [] => none
          | '=' :: value => some (String.ofList value)
          | value => some (String.ofList value)
        r.takeValue s attached
      else
        match r.take s [] with
        | .ok r => l.readShort r rest
        | .error e => .error e

/-- Read a word that is no switch. -/
def readWord (l : Level) (r : Reading) (w : String) : Except ArgumentError Reading :=
  match l.word with
  | some (name, kind) =>
    if r.hasWord then .error .unknownArgument
    else do
      let r ← r.flush
      return { r with pending := some ⟨name, .value kind, [w]⟩, hasWord := true }
  | none =>
    if r.trailing && l.commands.contains w then .error .unknownArgument
    else if l.commands.isEmpty then .error .unknownArgument
    else .error .unknownCommand

/-- Read a word that is the value of a pending switch. -/
def readValue (r : Reading) (w : String) : Reading :=
  { r with
    pending := r.pending.map fun p => { p with values := p.values ++ [w] }
    awaiting := false }

/-- Read the words of a level, up to a command. -/
def readWords (l : Level) (r : Reading) :
    List String → Except ArgumentError (Reading × Option (String × List String))
  | [] => .ok (r, none)
  | w :: rest =>
    if r.trailing then do
      l.readWords (← l.readWord r w) rest
    else if !r.awaiting && l.commands.contains w then .ok (r, some (w, rest))
    else
      match w.toList with
      | ['-', '-'] => l.readWords { r with trailing := true, awaiting := false } rest
      | '-' :: '-' :: body => do
        l.readWords (← l.readLong r body) rest
      | '-' :: c :: body => do
        l.readWords (← l.readShort r (c :: body)) rest
      | _ =>
        if r.awaiting then l.readWords (readValue r w) rest
        else do
          l.readWords (← l.readWord r w) rest

/-- Check a level that ends without a command. -/
def check (l : Level) (r : Reading) : Except ArgumentError Unit :=
  if !l.commands.isEmpty then
    .error (if r.given.isEmpty then .nothingGiven else .missingCommand)
  else if l.exclusive.any fun (a, b) => (r.values? a).isSome && (r.values? b).isSome then
    .error .conflict
  else
    match l.word with
    | some (name, _) => if (r.values? name).isSome then .ok () else .error .missingArgument
    | none => .ok ()

end Level

/-! ## Command lines -/

/-- What to do. -/
inductive CliCommand where
  | run (workflow : String) (input inputJson : Option String) (vars : List String)
      (dryRun : Bool) (output : Option String) (maxConcurrent : Option Nat)
  | validate (workflow : String) (strict : Bool)
  | graph (workflow : String)
  | init (name outputDir : String)
deriving DecidableEq, Repr

/-- A whole command line. -/
structure CommandLine where
  command : CliCommand
  verbose : Bool
  config : Option String
  noColor : Bool
deriving DecidableEq, Repr

namespace CommandLine

/-- The switches that may stand on both levels. -/
def globalSwitches : List Switch :=
  [⟨"verbose", some 'v', .flag⟩, ⟨"config", some 'c', .value .path⟩, ⟨"no-color", none, .flag⟩,
    ⟨"help", some 'h', .help⟩]

/-- The switches and the word of each command. -/
def commandLevels : List (String × Level) :=
  let level (word : String × ValueKind) (own : List Switch) (exclusive : List (String × String)) :=
    Level.mk (own ++ globalSwitches) (some word) [] exclusive
  [("run", level ("workflow", .path)
      [⟨"input", none, .value .path⟩, ⟨"input-json", none, .value .text⟩,
        ⟨"var", some 'V', .collect .text⟩, ⟨"dry-run", none, .flag⟩,
        ⟨"output", some 'o', .value .path⟩, ⟨"max-concurrent", none, .value .count⟩]
      [("input", "input-json")]),
    ("validate", level ("workflow", .path) [⟨"strict", none, .flag⟩] []),
    ("graph", level ("workflow", .path) [] []),
    ("init", level ("name", .text) [⟨"output-dir", some 'o', .value .path⟩] [])]

/-- The first level. -/
def firstLevel : Level :=
  ⟨globalSwitches ++ [⟨"version", some 'V', .version⟩], none,
    commandLevels.map (·.1) ++ ["help"], []⟩

/-- The command that its level gives. -/
def commandOf? (name : String) (r : Reading) : Option CliCommand :=
  let value? (n : String) := (r.values? n).bind List.head?
  let isGiven (n : String) := (r.values? n).isSome
  match name with
  | "run" => (value? "workflow").map fun w =>
    .run w (value? "input") (value? "input-json") ((r.values? "var").getD [])
      (isGiven "dry-run") (value? "output")
      ((value? "max-concurrent").bind fun v => Number.readNat? v.toList)
  | "validate" => (value? "workflow").map fun w => .validate w (isGiven "strict")
  | "graph" => (value? "workflow").map .graph
  | "init" => (value? "name").map fun n => .init n ((value? "output-dir").getD ".")
  | _ => none

/-- What a request for help says about: it is refused for what is no command. -/
def helpOn (words : List String) : ArgumentError :=
  match words with
  | [] => .help
  | w :: rest =>
    if firstLevel.commands.contains w && rest.isEmpty then .help else .unknownCommand

/-- The command line of some words. -/
def parse (words : List String) : Except ArgumentError CommandLine := do
  let (first, command) ← firstLevel.readWords .empty words
  match command with
  | none =>
    firstLevel.check (← first.flush)
    throw .missingCommand
  | some ("help", rest) => throw (helpOn rest)
  | some (name, rest) =>
    match commandLevels.find? fun (n, _) => n = name with
    | none => throw .unknownCommand
    | some (_, level) =>
      let (second, _) ← level.readWords .empty rest
      let second ← second.flush
      level.check second
      let first ← first.flush
      let isGiven (n : String) := (first.values? n).isSome || (second.values? n).isSome
      let value? (n : String) := ((second.values? n) <|> first.values? n).bind List.head?
      match commandOf? name second with
      | none => throw .missingArgument
      | some command =>
        return ⟨command, isGiven "verbose", value? "config", isGiven "no-color"⟩

end CommandLine

end Workflow
