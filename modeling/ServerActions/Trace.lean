import ServerActions.Failure
import ServerActions.Text.Quoted

namespace ServerActions

inductive Stage
  | idle
  | resolvingPath
  | reading
  | extracting
  | filtering
  | synthesizing
  | writing
  | done
  | failed
  deriving DecidableEq

def Stage.text : Stage → String
  | idle => "idle"
  | resolvingPath => "resolving-path"
  | reading => "reading"
  | extracting => "extracting"
  | filtering => "filtering"
  | synthesizing => "synthesizing"
  | writing => "writing"
  | done => "done"
  | failed => "failed"

inductive Event
  | started
  | probing (directory : Path)
  | reading (declaration : Path)
  | scanning (factory : String)
  | extracted (imports entryPoints extraCalls : Nat)
  | resolving
  | unused (module : String)
  | rendering
  | writing (output : Path)
  | generated
  | upToDate (output : Path)
  | failed (reason : Failure)
  deriving DecidableEq

namespace Event

def stage? : Event → Option Stage
  | started => some .idle
  | probing _ => some .resolvingPath
  | reading _ => some .reading
  | scanning _ => some .extracting
  | extracted _ _ _ => none
  | resolving => some .filtering
  | unused _ => none
  | rendering => some .synthesizing
  | writing _ => some .writing
  | generated => some .done
  | upToDate _ => some .done
  | failed _ => some .failed

def message : Event → String
  | started => "Starting troute generation"
  | probing _ => "No path provided, checking for source directory"
  | reading _ => "Looking for troute file"
  | scanning _ => "Scanning declaration file"
  | extracted _ _ _ => "Extracted declarations"
  | resolving => "Resolving entry points against imports"
  | unused _ => "Import contributes no entry points"
  | rendering => "Rendering actions module"
  | writing _ => "Writing output"
  | generated => "Generation finished"
  | upToDate _ => "Actions module is up to date"
  | failed _ => "Generation failed"

def fields : Event → List (String × String)
  | started => []
  | probing directory => [("dir", directory.text)]
  | reading declaration => [("path", declaration.text)]
  | scanning factory => [("factory", Text.quoted factory)]
  | extracted imports entryPoints extraCalls =>
    [("imports", toString imports), ("entry_points", toString entryPoints),
      ("extra_factory_calls", toString extraCalls)]
  | resolving => []
  | unused module => [("module", module)]
  | rendering => []
  | writing output => [("path", output.text)]
  | generated => []
  | upToDate output => [("path", output.text)]
  | failed reason => [("error", reason.message)]

def line (e : Event) : String :=
  let stage := (e.stage?.map fun s => ("stage", s.text)).toList
  "DEBUG " ++ e.message ++
    String.join ((stage ++ e.fields).map fun (name, value) => " " ++ name ++ "=" ++ value) ++ "\n"

end Event

inductive Message
  | event (e : Event)
  | warning (text : String)
  | output (text : String)
  deriving DecidableEq

def warningLine (message : String) : String :=
  "[WARN] " ++ message ++ "\n"

namespace Message

def event? : Message → Option Event
  | event e => some e
  | _ => none

def err (verbose : Bool) : Message → String
  | event e => if verbose then e.line else ""
  | warning text => warningLine text
  | output _ => ""

def out : Message → String
  | output text => text
  | _ => ""

end Message

end ServerActions
