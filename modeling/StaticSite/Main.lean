import StaticSite.CommandLine.Outcome
import StaticSite.Text.Utf8

/-! The program. A command is tried with what is known of the disk, and every
path that it asks for is looked at before the next try. -/

namespace StaticSite.Program

/-- The fault of a system error. Numbers of errors may come with a minus sign. -/
def ofCode (code : UInt32) (details : String) : FileFault :=
  match if code.toNat < Nat.pow 2 31 then code.toNat else Nat.pow 2 32 - code.toNat with
  | 2 => .missing
  | 20 => .notDirectory
  | 21 => .isDirectory
  | 36 => .nameTooLong
  | 40 => .tooManyLinks
  | n => .other (details ++ " (os error " ++ toString n ++ ")").toList

def faultOf : IO.Error → FileFault
  | .noFileOrDirectory _ code details => ofCode code details
  | .noSuchThing _ code details => ofCode code details
  | .inappropriateType _ code details => ofCode code details
  | .invalidArgument _ code details => ofCode code details
  | .permissionDenied _ code details => ofCode code details
  | .resourceExhausted _ code details => ofCode code details
  | .otherError code details => ofCode code details
  | e => .other (toString e).toList

def textOf (bytes : ByteArray) : Except FileFault Text :=
  match Text.ofUtf8? bytes.toList with
  | some t => .ok t
  | none => .error .notText

def readAt (path : Text) : IO (Except FileFault Text) := do
  try return textOf (← IO.FS.readBinFile (String.ofList path))
  catch e => return .error (faultOf e)

/-- The canonical path. Why there is none is learned from reading the file. -/
def lookAt (path : Text) : IO (Except FileFault Text) := do
  try return .ok (toString (← IO.FS.realPath (String.ofList path))).toList
  catch _ => return (← readAt path).bind fun _ => .error .missing

/-- The variables of the process, which are separated by zero characters. -/
def processVars : IO (Entries Text) := do
  let t ← readAt "/proc/self/environ"
  return (Text.splitOn '\x00' (t.toOption.getD [])).filterMap (Text.splitFirst? '=')

partial def run (command : Command) (vars : Entries Text) (directory : Text)
    (canonical texts : Disk.Sights) : IO Outcome := do
  let result := command.run ⟨Disk.ofSights canonical texts, vars, directory⟩
  match result with
  | .ok _ => return Outcome.ofResult result
  | .error e => match e.unseen? with
    | none => return Outcome.ofResult result
    | some path =>
      run command vars directory ((path, ← lookAt path) :: canonical) ((path, ← readAt path) :: texts)

end StaticSite.Program

open StaticSite in
def main (args : List String) : IO UInt32 := do
  let directory := (toString (← IO.currentDir)).toList
  let outcome ← match Command.ofArguments (args.map String.toList) with
    | .error stop => pure (Outcome.ofStop stop)
    | .ok command => Program.run command (← Program.processVars) directory [] []
  (← IO.getStdout).putStr (String.ofList outcome.output)
  (← IO.getStderr).putStr (String.ofList outcome.messages)
  return outcome.code.toUInt32
