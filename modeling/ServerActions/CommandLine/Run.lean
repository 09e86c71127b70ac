import ServerActions.CommandLine.Help
import ServerActions.DeclarationPath
import ServerActions.Report
import ServerActions.Settings.File

namespace ServerActions.CommandLine

def infoLine (message : String) : String :=
  "[INFO] " ++ message ++ "\n"

def diagnostics (g : Generation) : List String :=
  let unbacked := g.resolution.unbacked.map fun name =>
    "Entry point " ++ name ++ " has no matching import"
  let extra :=
    if 0 < g.extraCalls then
      ["Found " ++ toString g.extraCalls ++ " additional factory call(s) in " ++
        g.declaration.text ++ "; only the first is used"]
    else []
  unbacked ++ extra

def generateOutput (g : Generation) (dryRun json : Bool) : String :=
  if json then (g.report !dryRun).pretty ++ "\n"
  else if dryRun then g.content
  else
    infoLine ("Found troute file at " ++ g.declaration.text) ++
      infoLine ("Successfully generated " ++ g.output.text)

def checkOutput (g : Generation) : String :=
  infoLine (g.output.text ++ " is up to date")

open Workspace

variable {m : Type → Type} [Monad m] [Workspace m]

def announce (output : Generation → String) :
    Except Failure Generation → m (Except Failure Unit)
  | .error reason => return .error reason
  | .ok g => do
    warnAll (diagnostics g)
    print (output g)
    return .ok ()

variable [PatternEngine]

def Command.perform (settings : Settings) : Command → m (Except Failure Unit)
  | .generate path lenient dryRun json => do
    let declaration ← findDeclaration ⟨""⟩ path settings
    match Generator.make settings with
    | .error reason => return .error reason
    | .ok g =>
      let generator := g.lenient lenient
      let outcome ←
        if dryRun then generator.render declaration else generator.generate declaration
      announce (generateOutput · dryRun json) outcome
  | .check path lenient => do
    let declaration ← findDeclaration ⟨""⟩ path settings
    match Generator.make settings with
    | .error reason => return .error reason
    | .ok g =>
      let outcome ← (g.lenient lenient).check declaration
      announce checkOutput outcome

def Arguments.perform (a : Arguments) : m (Except Failure Unit) := do
  log .started
  match ← Settings.find a.config with
  | .error reason => return .error reason
  | .ok settings => a.command.perform settings

def warnFailure : Except Failure Unit → m Unit
  | .error reason => warn reason.message
  | .ok () => pure ()

def Arguments.execute (a : Arguments) : m (Except Failure Unit) := do
  let result ← a.perform
  warnFailure result
  return result

def exitCode : Except Failure Unit → Nat
  | .ok () => 0
  | .error _ => 1

structure Outcome where
  code : Nat
  out : String
  err : String
  deriving DecidableEq, Inhabited

def Notice.outcome : Notice → Outcome
  | help topic => ⟨0, topic.text, ""⟩
  | version => ⟨0, "troute " ++ ServerActions.version ++ "\n", ""⟩
  | misuse .noArguments => ⟨2, "", HelpTopic.text .program⟩
  | misuse error => ⟨2, "", "error: " ++ error.message ++ "\n"⟩

def traceText (verbose : Bool) (events : List Event) : String :=
  if verbose then String.join (events.map Event.line) else ""

def errText (verbose : Bool) (messages : List Message) : String :=
  String.join (messages.map (Message.err verbose))

def outText (messages : List Message) : String :=
  String.join (messages.map Message.out)

def runArguments (tree : FileTree) (a : Arguments) :
    Except Failure Unit × Outcome × FileTree :=
  let (result, session) := runIn tree a.execute
  (result,
    ⟨exitCode result, outText session.messages, errText a.verbose session.messages⟩,
    session.tree)

def run (tree : FileTree) (args : List String) : Outcome × FileTree :=
  match parse args with
  | .error notice => (notice.outcome, tree)
  | .ok a => (runArguments tree a).2

end ServerActions.CommandLine
