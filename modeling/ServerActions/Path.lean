import ServerActions.Text.Split

/-!
Paths as they are written.  A path keeps its spelling; its components are what the spelling says:
repeated separators, steps `.` after the first and separators at the end add nothing.
-/

namespace ServerActions

structure Path where
  text : String
  deriving DecidableEq, Inhabited

namespace Path

inductive Component
  | root
  | current
  | parent
  | name (text : String)
  deriving DecidableEq

def isSeparator (c : Char) : Bool :=
  c == '/'

def isFiller (piece : List Char) : Bool :=
  piece == [] || piece == ['.']

def splitLead : List Char → List Char × List Char
  | '/' :: s => (['/'], s)
  | ['.'] => (['.'], [])
  | '.' :: '/' :: s => (['.'], '/' :: s)
  | s => ([], s)

def lead (p : Path) : List Char :=
  (splitLead p.text.toList).1

def piecesUpward (p : Path) : List (List Char) :=
  (Text.split isSeparator (splitLead p.text.toList).2).reverse

def leadComponents : List Char → List Component
  | ['/'] => [.root]
  | ['.'] => [.current]
  | _ => []

def pieceComponent (piece : List Char) : Component :=
  if piece = ['.', '.'] then .parent else .name (String.ofList piece)

def components (p : Path) : List Component :=
  leadComponents p.lead ++
    ((p.piecesUpward.filter (!isFiller ·)).map pieceComponent).reverse

def ofPieces (lead : List Char) (pieces : List (List Char)) : Path :=
  ⟨String.ofList (lead ++ Text.join '/' (pieces.dropWhile isFiller).reverse)⟩

def ancestorsOf (lead : List Char) : List (List Char) → List Path
  | [] => if lead = ['.'] then [⟨""⟩] else []
  | piece :: pieces =>
    if isFiller piece then ancestorsOf lead pieces
    else ofPieces lead pieces :: ancestorsOf lead pieces

def ancestors (p : Path) : List Path :=
  ancestorsOf p.lead p.piecesUpward

/-- The path without its last component; the root and the empty path have no parent. -/
def parent? (p : Path) : Option Path :=
  p.ancestors.head?

def fileName? (p : Path) : Option String :=
  match p.piecesUpward.dropWhile isFiller with
  | [] => none
  | piece :: _ => if piece = ['.', '.'] then none else some (String.ofList piece)

def extensionOf (name : List Char) : Option (List Char) :=
  match name.reverse.dropWhile (· != '.') with
  | _ :: _ :: _ => some (name.reverse.takeWhile (· != '.')).reverse
  | _ => none

def extension? (p : Path) : Option String :=
  p.fileName?.bind fun name => (extensionOf name.toList).map String.ofList

def isAbsolute (p : Path) : Bool :=
  p.text.toList.head? == some '/'

def endsInSeparator (p : Path) : Bool :=
  p.text.toList.getLast? == some '/'

def join (p q : Path) : Path :=
  if q.isAbsolute then q
  else if p.text = "" || p.endsInSeparator then ⟨p.text ++ q.text⟩
  else ⟨p.text ++ "/" ++ q.text⟩

def steps (p : Path) : List String :=
  ((Text.split isSeparator p.text.toList).filter (· != [])).map String.ofList

end Path

end ServerActions
