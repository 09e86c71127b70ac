import ServerActions.Path

/-!
The arguments of the program.  Options stand before or after the command; those that both places
know may be given once at each.
-/

namespace ServerActions.CommandLine

inductive Command
  | generate (path : Option Path) (lenient dryRun json : Bool)
  | check (path : Option Path) (lenient : Bool)
  deriving DecidableEq

structure Arguments where
  verbose : Bool
  config : Option Path
  command : Command
  deriving DecidableEq

inductive UsageError
  | unknownArgument
  | invalidCommand
  | missingCommand
  | noArguments
  | invalidValue
  | repeatedOption
  | needlessValue
  deriving DecidableEq

inductive HelpTopic
  | program
  | generate
  | check
  | help
  deriving DecidableEq

inductive Notice
  | help (topic : HelpTopic)
  | version
  | misuse (error : UsageError)
  deriving DecidableEq

inductive Scope
  | program
  | generate
  | check
  deriving DecidableEq

def Scope.topic : Scope → HelpTopic
  | program => .program
  | generate => .generate
  | check => .check

inductive Flag
  | verbose
  | lenient
  | dryRun
  | json
  | help
  | version
  deriving DecidableEq

def Scope.knows : Scope → Flag → Bool
  | _, .verbose => true
  | _, .help => true
  | program, .version => true
  | generate, .lenient => true
  | generate, .dryRun => true
  | generate, .json => true
  | check, .lenient => true
  | _, _ => false

def Flag.ofName? : List Char → Option Flag
  | name =>
    if name = "verbose".toList then some .verbose
    else if name = "lenient".toList then some .lenient
    else if name = "dry-run".toList then some .dryRun
    else if name = "json".toList then some .json
    else if name = "help".toList then some .help
    else if name = "version".toList then some .version
    else none

def Flag.ofLetter? : Char → Option Flag
  | 'v' => some .verbose
  | 'h' => some .help
  | 'V' => some .version
  | _ => none

def Scope.flag? (scope : Scope) (name : List Char) : Option Flag :=
  (Flag.ofName? name).filter scope.knows

def Scope.letter? (scope : Scope) (c : Char) : Option Flag :=
  (Flag.ofLetter? c).filter scope.knows

inductive Token
  | separator
  | long (name : List Char) (value : Option (List Char))
  | short (letters : List Char)
  | plain
  deriving DecidableEq

def Token.splitLong (s : List Char) : Token :=
  match s.dropWhile (· != '=') with
  | [] => .long s none
  | _ :: value => .long (s.takeWhile (· != '=')) (some value)

def Token.ofArgument (a : String) : Token :=
  match a.toList with
  | ['-', '-'] => .separator
  | '-' :: '-' :: s => splitLong s
  | '-' :: c :: s => .short (c :: s)
  | _ => .plain

inductive Pending
  | none
  | config
  | configValue (value : String)
  | pathValue (value : String)
  deriving DecidableEq

structure Given where
  flags : List Flag := []
  config : Option String := none
  path : Option String := none
  pending : Pending := .none
  deriving DecidableEq, Inhabited

namespace Given

def isEmpty (g : Given) : Bool :=
  g.flags.isEmpty && g.config.isNone && g.path.isNone && g.pending == .none

def hasPath (g : Given) : Bool :=
  match g.pending with
  | .pathValue _ => true
  | _ => g.path.isSome

def misuse {α : Type} (e : UsageError) : Except Notice α :=
  .error (.misuse e)

def takeConfig (g : Given) (value : String) : Except Notice Given :=
  if g.config.isSome then misuse .repeatedOption
  else if value = "" then misuse .invalidValue
  else .ok { g with config := some value, pending := .none }

def settle (g : Given) : Except Notice Given :=
  match g.pending with
  | .none => .ok g
  | .config => misuse .invalidValue
  | .configValue value => g.takeConfig value
  | .pathValue value =>
    if value = "" then misuse .invalidValue
    else .ok { g with path := some value, pending := .none }

def takeFlag (g : Given) (scope : Scope) (flag : Flag) : Except Notice Given := do
  let g ← g.settle
  match flag with
  | .help => .error (.help scope.topic)
  | .version => .error .version
  | flag =>
    if g.flags.contains flag then misuse .repeatedOption
    else .ok { g with flags := flag :: g.flags }

def takeLetters (scope : Scope) : Given → List Char → Except Notice Given
  | g, [] => .ok g
  | g, c :: letters =>
    match scope.letter? c with
    | some flag => do takeLetters scope (← g.takeFlag scope flag) letters
    | none => misuse .unknownArgument

def takeLong (g : Given) (scope : Scope) (name : List Char) (value : Option (List Char)) :
    Except Notice Given :=
  if name = "config".toList then do
    let g ← g.settle
    match value with
    | some value => g.takeConfig (String.ofList value)
    | none => .ok { g with pending := .config }
  else
    match scope.flag? name, value with
    | some flag, none => g.takeFlag scope flag
    | some _, some _ => misuse .needlessValue
    | none, _ => misuse .unknownArgument

def takePath (g : Given) (value : String) : Except Notice Given :=
  if g.hasPath then misuse .unknownArgument
  else do return { ← g.settle with pending := .pathValue value }

def takeRest : Given → List String → Except Notice Given
  | g, [] => g.settle
  | g, a :: as => do takeRest (← g.takePath a) as

def takeAll (scope : Scope) : Given → List String → Except Notice Given
  | g, [] => g.settle
  | g, a :: as =>
    match Token.ofArgument a with
    | .separator => takeRest g as
    | .long name value => do takeAll scope (← g.takeLong scope name value) as
    | .short letters => do takeAll scope (← takeLetters scope g letters) as
    | .plain =>
      if g.pending = .config then takeAll scope { g with pending := .configValue a } as
      else do takeAll scope (← g.takePath a) as

end Given

open Given

def Arguments.ofGiven (before after : Given) (command : Command) : Arguments where
  verbose := before.flags.contains .verbose || after.flags.contains .verbose
  config := ((after.config <|> before.config)).map Path.mk
  command := command

def parseGenerate (before : Given) (as : List String) : Except Notice Arguments := do
  let after ← takeAll .generate {} as
  let before ← before.settle
  return .ofGiven before after
    (.generate (after.path.map Path.mk) (after.flags.contains .lenient)
      (after.flags.contains .dryRun) (after.flags.contains .json))

def parseCheck (before : Given) (as : List String) : Except Notice Arguments := do
  let after ← takeAll .check {} as
  let before ← before.settle
  return .ofGiven before after
    (.check (after.path.map Path.mk) (after.flags.contains .lenient))

def helpNotice : List String → Notice
  | [] => .help .program
  | ["generate"] => .help .generate
  | ["check"] => .help .check
  | ["help"] => .help .help
  | _ => .misuse .invalidCommand

def restError : List String → Option UsageError
  | [] => none
  | a :: _ =>
    if a = "generate" || a = "check" || a = "help" then some .unknownArgument
    else some .invalidCommand

def endWithout (g : Given) : Except Notice Arguments := do
  let g ← g.settle
  misuse (if g.isEmpty then .noArguments else .missingCommand)

/-- Takes the arguments up to the command, and then those after it.  The value of `--config` may
be the name of a command. -/
def parseFrom (g : Given) : List String → Except Notice Arguments
  | [] => endWithout g
  | a :: as =>
    if g.pending ≠ .config && a = "generate" then parseGenerate g as
    else if g.pending ≠ .config && a = "check" then parseCheck g as
    else if g.pending ≠ .config && a = "help" then .error (helpNotice as)
    else
      match Token.ofArgument a with
      | .separator =>
        match restError as with
        | some e => misuse e
        | none => endWithout g
      | .long name value => do parseFrom (← g.takeLong .program name value) as
      | .short letters => do parseFrom (← takeLetters .program g letters) as
      | .plain =>
        if g.pending = .config then parseFrom { g with pending := .configValue a } as
        else misuse .invalidCommand

def parse (as : List String) : Except Notice Arguments :=
  parseFrom {} as

end ServerActions.CommandLine
