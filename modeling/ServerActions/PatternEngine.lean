namespace ServerActions

/-- The escaped name of a factory is always a pattern, but the engine compiles none beyond a limit:
what it makes of the name, in bytes, must not take more. -/
class PatternEngine where
  compiledSize : String → Nat
  sizeLimit : Nat

namespace PatternEngine

variable [PatternEngine]

def Compiles (factory : String) : Prop :=
  compiledSize factory ≤ sizeLimit

instance (factory : String) : Decidable (Compiles factory) :=
  inferInstanceAs (Decidable (compiledSize factory ≤ sizeLimit))

end PatternEngine

/-- The engine of the program, with a state of 32 bytes for each byte of the name.  The few states
for the rest of the pattern are not counted. -/
instance : PatternEngine where
  compiledSize factory := 32 * factory.utf8ByteSize
  sizeLimit := 10 * 1024 * 1024

end ServerActions
