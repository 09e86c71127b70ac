import ServerActions.CommandLine.Run

namespace ServerActions

abbrev Disk := ReaderT Bool IO

namespace Disk

def accessError (e : IO.Error) : AccessError :=
  match e with
  | .noFileOrDirectory .. => .notFound
  | .alreadyExists .. => .alreadyExists
  | .inappropriateType _ code _ => if code = 21 then .isDirectory else .notDirectory
  | .invalidArgument _ code _ =>
    if code = 36 || code = 0 - 36 then .nameTooLong else .other (toString e)
  | e => .other (toString e)

def attempt {α : Type} (p : Path) (x : IO α) : Disk (Except AccessError α) := fun _ => do
  if p.text.toList.contains '\x00' then return .error .nulInPath
  match ← x.toBaseIO with
  | .ok a => return .ok a
  | .error e => return .error (accessError e)

def readText (p : Path) : Disk (Except AccessError String) := do
  match ← attempt p (IO.FS.readBinFile p.text) with
  | .error e => return .error e
  | .ok bytes =>
    match String.fromUTF8? bytes with
    | some text => return .ok text
    | none => return .error .notText

instance : Workspace Disk where
  pathExists p := do
    match ← attempt p (IO.FS.readBinFile p.text) with
    | .ok _ => return true
    | .error e => return e = .isDirectory
  readText := readText
  makeDirectories p := attempt p (IO.FS.createDirAll p.text)
  writeText p text := attempt p (IO.FS.writeFile p.text text)
  log e := fun verbose => IO.eprint ((Message.event e).err verbose)
  warn text := fun verbose => IO.eprint ((Message.warning text).err verbose)
  print text := fun _ => IO.print text

end Disk

end ServerActions

open ServerActions CommandLine in
def main (args : List String) : IO UInt32 := do
  match parse args with
  | .error notice =>
    IO.eprint notice.outcome.err
    IO.print notice.outcome.out
    return notice.outcome.code.toUInt32
  | .ok a =>
    let result ← (a.execute : Disk _).run a.verbose
    return (exitCode result).toUInt32
