import StaticSite.Config.Entries

/-! Arguments of a command: switches, options with a value, and positional
arguments. After two dashes everything is positional. -/

namespace StaticSite

/-- Why a command line names no command to run. -/
inductive Stop where
  | usage
  | help
  | version
  deriving DecidableEq

inductive SwitchKind where
  | flag
  | option
  | stop (reason : Stop)
  deriving DecidableEq

structure Switch where
  long : Text
  short : Option Char
  kind : SwitchKind
  deriving DecidableEq

/-- What has been given so far. Flags have an empty value. -/
structure Arguments where
  values : Entries Text
  positional : List Text
  deriving DecidableEq

namespace Arguments

def none : Arguments := ⟨[], []⟩

def has (g : Arguments) (name : Text) : Bool := Entries.has g.values name

/-- Every switch may be given once. -/
def give (g : Arguments) (s : Switch) (value : Text) : Except Stop Arguments :=
  if g.has s.long then .error .usage else .ok { g with values := Entries.insert s.long value g.values }

/-- The switches after one dash, and the option that still needs a value. -/
def takeShort (switches : List Switch) (g : Arguments) :
    Text → Except Stop (Arguments × Option Switch)
  | [] => .ok (g, Option.none)
  | c :: rest => match switches.find? (·.short = some c) with
    | Option.none => .error .usage
    | some s => match s.kind with
      | .stop reason => .error reason
      | .flag => do
        let g ← g.give s []
        takeShort switches g rest
      | .option => match rest with
        | [] => .ok (g, some s)
        | '=' :: value => return (← g.give s value, Option.none)
        | value => return (← g.give s value, Option.none)

/-- The switch after two dashes. A value may be joined to it by an equals sign. -/
def takeLong (switches : List Switch) (g : Arguments) (t : Text) :
    Except Stop (Arguments × Option Switch) :=
  let (name, value) := match Text.splitFirst? '=' t with
    | some (name, value) => (name, some value)
    | Option.none => (t, Option.none)
  match switches.find? (·.long = name) with
  | Option.none => .error .usage
  | some s => match s.kind, value with
    | .stop reason, Option.none => .error reason
    | .flag, Option.none => return (← g.give s [], Option.none)
    | .option, Option.none => .ok (g, some s)
    | .option, some value => return (← g.give s value, Option.none)
    | _, some _ => .error .usage

/-- The switches of one argument, if it has any. A lone dash is a value. -/
def takeSwitches? (switches : List Switch) (g : Arguments) :
    Text → Option (Except Stop (Arguments × Option Switch))
  | '-' :: '-' :: name => some (takeLong switches g name)
  | '-' :: c :: rest => some (takeShort switches g (c :: rest))
  | _ => Option.none

/-- Reads arguments; `pending` is an option that needs the next one as its value. -/
def read (switches : List Switch) (g : Arguments) (pending : Option Switch) :
    List Text → Except Stop Arguments
  | [] => if pending.isSome then .error .usage else .ok g
  | arg :: args =>
    if arg = "--" then
      if pending.isSome then .error .usage
      else .ok { g with positional := g.positional ++ args }
    else match takeSwitches? switches g arg, pending with
      | some _, some _ => .error .usage
      | some (.error e), Option.none => .error e
      | some (.ok (g, pending)), Option.none => read switches g pending args
      | Option.none, some s => do
        let g ← g.give s arg
        read switches g Option.none args
      | Option.none, Option.none =>
        read switches { g with positional := g.positional ++ [arg] } Option.none args

/-- Reads switches up to the first positional argument, and gives it with what follows. -/
def readHead (switches : List Switch) (g : Arguments) :
    List Text → Except Stop (Text × List Text)
  | [] => .error .usage
  | arg :: args => match takeSwitches? switches g arg with
    | some (.error e) => .error e
    | some (.ok (_, some _)) => .error .usage
    | some (.ok (g, Option.none)) => readHead switches g args
    | Option.none => .ok (arg, args)

def value? (g : Arguments) (name : Text) : Option Text := Entries.get? name g.values

end Arguments

end StaticSite
