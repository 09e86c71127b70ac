namespace ServerActions

structure ImportBinding where
  names : List String
  path : String
  deriving DecidableEq, Inhabited

structure EntryPoints where
  names : List String
  deriving DecidableEq, Inhabited

namespace EntryPoints

def contains (e : EntryPoints) (name : String) : Bool :=
  e.names.contains name

def size (e : EntryPoints) : Nat :=
  e.names.length

def isEmpty (e : EntryPoints) : Bool :=
  e.names.isEmpty

@[simp] theorem contains_iff {e : EntryPoints} {name : String} :
    e.contains name = true ↔ name ∈ e.names := by
  simp [contains]

end EntryPoints

structure Declaration where
  imports : List ImportBinding
  entryPoints : EntryPoints
  extraCalls : Nat
  deriving DecidableEq, Inhabited

end ServerActions
