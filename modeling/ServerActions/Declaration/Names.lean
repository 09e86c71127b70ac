import ServerActions.Text.Blank
import ServerActions.Text.Split

namespace ServerActions.Declaration

def splitNames (body : List Char) : List String :=
  (((Text.split (· == ',') body).map Text.trim).filter (· != [])).map String.ofList

def joinNames (names : List String) : String :=
  ", ".intercalate names

end ServerActions.Declaration
