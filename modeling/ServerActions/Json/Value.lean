namespace ServerActions

inductive Json
  | boolean (value : Bool)
  | number (value : Nat)
  | text (value : String)
  | array (items : List Json)
  | object (members : List (String × Json))
  deriving Inhabited

def Json.texts (values : List String) : Json :=
  .array (values.map .text)

end ServerActions
