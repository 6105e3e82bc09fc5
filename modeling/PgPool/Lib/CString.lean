import Mathlib.Logic.Basic

/-!
# C string comparisons

`strcasecmp`, `strncasecmp` against a literal and the skipping of white space, on `String` values
without an embedded NUL.  Case folding is that of the C locale.
-/

namespace CString

def foldCase (s : String) : List Char := s.toList.map Char.toLower

/-- `strcasecmp(s, t) == 0`. -/
def caseEq (s t : String) : Bool := foldCase s == foldCase t

/-- `strncasecmp(s, t, strlen(t)) == 0`. -/
def casePrefix (s t : String) : Bool := (foldCase t).isPrefixOf (foldCase s)

/-- `isspace` in the C locale. -/
def isSpace (c : Char) : Bool :=
  c == ' ' || c == '\t' || c == '\n' || c == '\x0b' || c == '\x0c' || c == '\r'

/-- `while (*s && isspace(*s)) s++`. -/
def skipSpace (s : String) : List Char := s.toList.dropWhile isSpace

end CString
