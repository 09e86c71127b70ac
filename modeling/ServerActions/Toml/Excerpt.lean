import ServerActions.Toml.Lexeme

namespace ServerActions.Toml

structure Excerpt where
  line : Nat
  indent : Nat
  source : List Char
  width : Nat
  deriving DecidableEq

def byteSize (s : List Char) : Nat :=
  (String.ofList s).utf8ByteSize

namespace Excerpt

/-- The line in which a part of a document starts.  The part has a mark for each byte, at least
one, and at most as many as the line has bytes beyond the characters before it. -/
def ofSpan (document : List Char) (span : Span) : Excerpt :=
  let before := document.take (document.length - span.start)
  let after := document.drop (document.length - span.start)
  let indent := before.reverse.takeWhile (· != '\n')
  let source := indent.reverse ++ after.takeWhile (· != '\n')
  { line := before.count '\n' + 1
    indent := indent.length
    source := source
    width := max 1 (min (byteSize (after.take (span.start - span.stop)))
      (byteSize source - indent.length)) }

def text (e : Excerpt) : String :=
  let number := toString e.line
  let gutter := "".pushn ' ' (number.length + 1) ++ "|"
  "TOML parse error at line " ++ number ++ ", column " ++ toString (e.indent + 1) ++ "\n" ++
    gutter ++ "\n" ++
    number ++ " | " ++ String.ofList e.source ++ "\n" ++
    gutter ++ "".pushn ' ' (e.indent + 1) ++ "".pushn '^' e.width ++ "\n"

end Excerpt

end ServerActions.Toml
