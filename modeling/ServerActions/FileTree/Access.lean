import ServerActions.FileTree.AccessError
import ServerActions.FileTree.Basic
import ServerActions.Path

/-!
Reading and writing a tree through paths.  A path is walked step by step from the root or the
working directory, every step from a directory; a step can fail for one of several reasons, and the
first failure is reported.
-/

namespace ServerActions.FileTree

def maxNameSize : Nat := 255

def maxPathSize : Nat := 4095

def pathFault? (p : Path) : Option AccessError :=
  if p.text.toList.contains '\x00' then some .nulInPath
  else if p.text = "" then some .notFound
  else if maxPathSize < p.text.utf8ByteSize then some .nameTooLong
  else none

def walk (t : FileTree) : Location → List String → Except AccessError Location
  | l, [] => .ok l
  | l, step :: steps =>
    if t.get? l = some .directory then
      if step = "." then t.walk l steps
      else if step = ".." then t.walk l.tail steps
      else if maxNameSize < step.utf8ByteSize then .error .nameTooLong
      else if (t.get? (step :: l)).isSome then t.walk (step :: l) steps
      else .error .notFound
    else .error .notDirectory

def origin (t : FileTree) (p : Path) : Location :=
  if p.isAbsolute then [] else t.workingDirectory

def locate (t : FileTree) (p : Path) : Except AccessError Location :=
  match pathFault? p with
  | some e => .error e
  | none => t.walk (t.origin p) (if p.endsInSeparator then p.steps ++ ["."] else p.steps)

def find (t : FileTree) (p : Path) : Except AccessError Entry := do
  let l ← t.locate p
  match t.get? l with
  | some e => .ok e
  | none => .error .notFound

def pathExists (t : FileTree) (p : Path) : Bool :=
  (t.find p).toBool

def isDirectory (t : FileTree) (p : Path) : Bool :=
  match t.find p with
  | .ok .directory => true
  | _ => false

def readBytes (t : FileTree) (p : Path) : Except AccessError ByteArray := do
  match ← t.find p with
  | .directory => .error .isDirectory
  | .file bytes => .ok bytes

def readText (t : FileTree) (p : Path) : Except AccessError String := do
  match String.fromUTF8? (← t.readBytes p) with
  | some text => .ok text
  | none => .error .notText

def locateLast (t : FileTree) (p : Path) : Except AccessError (Location × String) :=
  match pathFault? p with
  | some e => .error e
  | none =>
    match p.steps.getLast? with
    | none => .ok ([], ".")
    | some last => do return (← t.walk (t.origin p) p.steps.dropLast, last)

def isDotStep (step : String) : Bool :=
  step = "." || step = ".."

def makeDirectory (t : FileTree) (p : Path) : Except AccessError FileTree := do
  let (l, last) ← t.locateLast p
  if hp : t.get? l = some .directory then
    if isDotStep last then .error .alreadyExists
    else if maxNameSize < last.utf8ByteSize then .error .nameTooLong
    else if hr : (t.get? (last :: l)).isSome then .error .alreadyExists
    else .ok (t.place l last .directory hp (fun h => hr (by rw [h]; rfl)))
  else .error .notDirectory

def writeBytes (t : FileTree) (p : Path) (bytes : ByteArray) : Except AccessError FileTree := do
  let (l, last) ← t.locateLast p
  if hp : t.get? l = some .directory then
    if isDotStep last || p.endsInSeparator then .error .isDirectory
    else if maxNameSize < last.utf8ByteSize then .error .nameTooLong
    else if hr : t.get? (last :: l) = some .directory then .error .isDirectory
    else .ok (t.place l last (.file bytes) hp hr)
  else .error .notDirectory

def accept (t : FileTree) (p : Path) : Except AccessError FileTree →
    Except AccessError Unit × FileTree
  | .ok u => (.ok (), u)
  | .error e => if t.isDirectory p then (.ok (), t) else (.error e, t)

def makeDirectoryBelow (t : FileTree) (p : Path) (ancestors : List Path) :
    Except AccessError Unit × FileTree :=
  if p.text = "" then (.ok (), t)
  else
    match t.makeDirectory p with
    | .error .notFound =>
      match ancestors with
      | [] => (.error (.other "failed to create whole tree"), t)
      | q :: qs =>
        match t.makeDirectoryBelow q qs with
        | (.error e, u) => (.error e, u)
        | (.ok (), u) => u.accept p (u.makeDirectory p)
    | outcome => t.accept p outcome

/-- Makes a directory and the directories that lead to it, as far as they are missing.  After a
failure, the directories made so far stay. -/
def makeDirectories (t : FileTree) (p : Path) : Except AccessError Unit × FileTree :=
  t.makeDirectoryBelow p p.ancestors

end ServerActions.FileTree
