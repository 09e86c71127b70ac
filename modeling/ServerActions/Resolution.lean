import ServerActions.Declaration.Basic

/-!
Imports narrowed to entry points.  Every entry point is taken from the first import that lists it;
an import that contributes nothing is dropped, and an entry point that no import lists is unbacked.
-/

namespace ServerActions

structure Resolution where
  imports : List ImportBinding
  dropped : List String
  unbacked : List String
  deriving DecidableEq, Inhabited

namespace Resolution

def isFullyBacked (r : Resolution) : Bool :=
  r.unbacked.isEmpty

/-- The wanted names of a list, each at its first place and none that is claimed already. -/
def claim (wanted : String → Bool) : (claimed names : List String) → List String
  | _, [] => []
  | claimed, name :: names =>
    if wanted name && !claimed.contains name then name :: claim wanted (name :: claimed) names
    else claim wanted claimed names

def contributions (e : EntryPoints) : (claimed : List String) → List ImportBinding →
    List ImportBinding
  | _, [] => []
  | claimed, i :: is =>
    let own := claim e.contains claimed i.names
    ⟨own, i.path⟩ :: contributions e (claimed ++ own) is

end Resolution

open Resolution in
def resolve (imports : List ImportBinding) (e : EntryPoints) : Resolution :=
  let parts := contributions e [] imports
  { imports := parts.filter fun i => !i.names.isEmpty
    dropped := (parts.filter fun i => i.names.isEmpty).map ImportBinding.path
    unbacked := claim (fun _ => true) (parts.flatMap ImportBinding.names) e.names }

end ServerActions
