/-!
# Command line arguments

`Arguments.parse` reads the arguments after the name of the command.  An argument
that starts with a dash is an option wherever it stands, until a double dash says
that only the input can follow.
-/

namespace Correlator

/-- The options, apart from those that ask for help or for the version. -/
inductive CommandOption
  | dryRun
  | noProgress
  | autos
  | guard
  | offsetScale
  | stationNames
  | sourceNames
deriving DecidableEq, Repr

namespace CommandOption

def name : CommandOption → String
  | .dryRun => "dry-run"
  | .noProgress => "no-draw-progress"
  | .autos => "autos"
  | .guard => "guard"
  | .offsetScale => "offset-convention"
  | .stationNames => "station-names"
  | .sourceNames => "source-names"

def all : List CommandOption :=
  [.dryRun, .noProgress, .autos, .guard, .offsetScale, .stationNames, .sourceNames]

def ofName? (name : String) : Option CommandOption := all.find? fun o => o.name == name

def takesValue : CommandOption → Bool
  | .dryRun | .noProgress | .autos => false
  | _ => true

/-- Whether an option takes any number of values and may be given again. -/
def takesMany : CommandOption → Bool
  | .stationNames | .sourceNames => true
  | _ => false

/-- The values that an option admits, if they are few. -/
def choices? : CommandOption → Option (List String)
  | .offsetScale => some ["oversampled", "nyquist"]
  | _ => none

end CommandOption

/-- Why the command does not start. -/
inductive UsageError
  | helpWanted
  | versionWanted
  /-- There are no arguments at all. -/
  | nothingGiven
  | unknown (argument : String)
  /-- A value was given to an option that takes none. -/
  | surplusValue (name : String)
  | missingInput
  | missingValue (option : CommandOption)
  | notAChoice (option : CommandOption) (value : String)
  | repeated (option : CommandOption)
  | notANumber (text : String)
deriving DecidableEq, Repr

/-- What the arguments say.  Every time that an option is given makes a group of
values, and options are in the order in which they first appear. -/
structure Arguments where
  input : Option String := none
  given : List (CommandOption × List (List String)) := []
deriving DecidableEq, Repr

namespace Arguments

/-- The values of an option, one group for each time that it is given. -/
def groups (a : Arguments) (o : CommandOption) : List (List String) :=
  (a.given.lookup o).getD []

def isGiven (a : Arguments) (o : CommandOption) : Bool := a.given.any fun (p, _) => p == o

def values (a : Arguments) (o : CommandOption) : List String := (a.groups o).flatten

/-- Change the groups of an option, which is added at the end if it is new. -/
def update (a : Arguments) (o : CommandOption) (f : List (List String) → List (List String)) :
    Arguments :=
  { a with
    given :=
      if a.isGiven o then a.given.map fun (p, groups) => (p, if p = o then f groups else groups)
      else a.given ++ [(o, f [])] }

/-- The option is given once more, with these values so far. -/
def giveOption (a : Arguments) (o : CommandOption) (values : List String) : Arguments :=
  a.update o (· ++ [values])

/-- One more value for the option that was given last. -/
def giveValue (a : Arguments) (o : CommandOption) (value : String) : Arguments :=
  a.update o fun groups => groups.dropLast ++ [groups.getLast?.getD [] ++ [value]]

/-- The arguments so far, the option that still takes values, and whether there has
been a double dash. -/
structure Progress where
  arguments : Arguments := {}
  pending : Option CommandOption := none
  onlyInput : Bool := false

/-- Split a long option at its first equals sign. -/
def splitLong (body : List Char) : String × Option String :=
  let name := String.ofList (body.takeWhile (· != '='))
  match body.dropWhile (· != '=') with
  | [] => (name, none)
  | _ :: value => (name, some (String.ofList value))

/-- An argument that starts with two dashes. -/
def takeLong (p : Progress) (argument : String) (body : List Char) :
    Except UsageError Progress :=
  let (name, value?) := splitLong body
  let special? : Option UsageError :=
    if name = "help" then some .helpWanted
    else if name = "version" then some .versionWanted
    else none
  match special?, CommandOption.ofName? name, value? with
  | some _, _, some _ => .error (.surplusValue name)
  | some wanted, _, none => .error wanted
  | none, none, _ => .error (.unknown argument)
  | none, some o, value? =>
    match o.takesValue, value? with
    | false, some _ => .error (.surplusValue name)
    | false, none => .ok { p with arguments := p.arguments.giveOption o [], pending := none }
    | true, some value =>
      .ok { p with arguments := p.arguments.giveOption o [value], pending := none }
    | true, none => .ok { p with arguments := p.arguments.giveOption o [], pending := some o }

/-- An argument that starts with one dash.  The first letter decides. -/
def takeShort (argument : String) : List Char → UsageError
  | 'h' :: _ => .helpWanted
  | 'V' :: _ => .versionWanted
  | _ => .unknown argument

def takeInput (p : Progress) (argument : String) : Except UsageError Progress :=
  match p.arguments.input with
  | none => .ok { p with arguments := { p.arguments with input := some argument }, pending := none }
  | some _ => .error (.unknown argument)

def take (p : Progress) (argument : String) : Except UsageError Progress :=
  if p.onlyInput then takeInput p argument
  else
    match argument.toList with
    | ['-', '-'] => .ok { p with onlyInput := true }
    | '-' :: '-' :: body => takeLong p argument body
    | '-' :: c :: rest => .error (takeShort argument (c :: rest))
    | _ =>
      match p.pending with
      | none => takeInput p argument
      | some o =>
        .ok
          { p with
            arguments := p.arguments.giveValue o argument
            pending := if o.takesMany then some o else none }

/-- What is wrong with the values of an option, if anything. -/
def fault? (o : CommandOption) (groups : List (List String)) : Option UsageError :=
  if o.takesValue ∧ groups.all List.isEmpty then some (.missingValue o)
  else
    match o.choices?.bind fun choices => groups.flatten.find? fun v => !choices.contains v with
    | some value => some (.notAChoice o value)
    | none => if 1 < groups.length ∧ !o.takesMany then some (.repeated o) else none

/-- The checks at the end, in the order in which they are reported. -/
def finish (p : Progress) : Except UsageError Arguments :=
  let a := p.arguments
  match p.pending.filter fun o => (a.groups o).all List.isEmpty with
  | some o => .error (.missingValue o)
  | none =>
    if a.input.isNone ∧ a.given.isEmpty then .error .nothingGiven
    else if a.input.isNone then .error .missingInput
    else
      match a.given.findSome? fun (o, groups) => fault? o groups with
      | some fault => .error fault
      | none => .ok a

def parse (arguments : List String) : Except UsageError Arguments :=
  (arguments.foldlM take {}).bind finish

end Arguments
end Correlator
