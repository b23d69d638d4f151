import HyperSchema.Pattern.Match
import HyperSchema.Pattern.Parser

/-!
# Patterns

A pattern remembers the text it was read from.
-/

namespace HyperSchema

structure Pattern where
  source : String
  regex : Regex
  deriving DecidableEq

namespace Pattern

def compile? (source : String) : Option Pattern := (regex? source).map (Pattern.mk source)

/-- Whether the pattern matches anywhere in a text. -/
def isMatch (p : Pattern) (text : String) : Bool := p.regex.isMatch text

end Pattern

end HyperSchema
