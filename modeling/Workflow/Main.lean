/-
Workflow.Main — the program on a machine.

* `realFiles` — the files of the machine.
* `main` — the program.
-/
import Std.Time.DateTime.Timestamp
import Workflow.Cli.Program

namespace Workflow

/-- What an error of the machine says about a file. -/
def faultOf : IO.Error → FileFault
  | .noFileOrDirectory .. => .notFound
  | .inappropriateType .. => .notADirectory
  | .alreadyExists .. => .alreadyExists
  | e => .other (toString e)

/-- The result of an action, or what is wrong with the file. -/
def attempt {α : Type} (action : IO α) : IO (Except FileFault α) := do
  match ← action.toBaseIO with
  | .ok v => return .ok v
  | .error e => return .error (faultOf e)

instance realFiles : FileSystem IO where
  read path := attempt (IO.FS.readFile (System.mkFilePath [path]))
  write path text := attempt (IO.FS.writeFile (System.mkFilePath [path]) text)
  present path := (System.mkFilePath [path]).pathExists
  makeDirectory path := attempt (IO.FS.createDirAll (System.mkFilePath [path]))
  names path := attempt do
    return (← (System.mkFilePath [path]).readDir).toList.map (·.fileName)
  rename source target :=
    attempt (IO.FS.rename (System.mkFilePath [source]) (System.mkFilePath [target]))

/-- A digit of base sixteen. -/
def hexDigit (n : Nat) : Char := "0123456789abcdef".toList.getD (n % 16) '0'

/-- An id from random numbers below sixteen: groups of digits with a mark for the kind of id. -/
def idOfDigits (digits : List Nat) : String :=
  let group (start size : Nat) : List Char := ((digits.drop start).take size).map hexDigit
  let kind := '4' :: group 13 3
  let variant := hexDigit (8 + digits.getD 16 0 % 4) :: group 17 3
  String.ofList (['-'].intercalate [group 0 8, group 8 4, kind, variant, group 20 12])

/-- A new id. -/
def newId : IO String := do
  let bytes ← IO.getRandomBytes 32
  return idOfDigits (bytes.toList.map fun b => b.toNat % 16)

/-- The present instant. -/
def presentInstant : IO Instant := do
  let now ← Std.Time.Timestamp.now
  return Instant.ofTotalNanos now.toNanosecondsSinceUnixEpoch.val

/-- The variables of the environment that count. -/
def readEnvironment : IO (List (String × String)) := do
  let found ← Config.environment.mapM fun (key, _) => do
    return (← IO.getEnv key).map fun value => (key, value)
  return found.filterMap id

/-- What the program finds around it. -/
def surroundings : IO Surroundings := do
  let found ← readEnvironment
  let home ← IO.getEnv "HOME"
  return {
    lookup := Dict.find? found
    home := home.filter fun h => !h.isEmpty
    newRunId := ← newId
    now := ← presentInstant }

end Workflow

/-- The program. -/
def main (words : List String) : IO UInt32 := do
  let result ← Workflow.Program.run words (← Workflow.surroundings)
  for line in result.lines do
    IO.println line
  match result.errorLine with
  | some line => IO.eprintln line
  | none => pure ()
  return result.code.toUInt32
