import PgPool.Pcp.Codec

/-!
# The tokens of the configuration file

The rules of `pool_config.l`.  The rule that matches most wins, and among those the first; each rule here
says how many bytes it matches at the start of a text.
-/

namespace PgPool.ConfigFile

open Pcp.Codec (Bytes ascii)

/-- `POOL_TOKEN`. -/
inductive Token where
  | key | integer | real | string | unquotedString | equals | eol | parseError
  deriving DecidableEq, Repr

def isDigit (c : UInt8) : Bool := 48 ≤ c && c ≤ 57
def isHexDigit (c : UInt8) : Bool := isDigit c || (97 ≤ c && c ≤ 102) || (65 ≤ c && c ≤ 70)
def isLetter (c : UInt8) : Bool := (65 ≤ c && c ≤ 90) || (97 ≤ c && c ≤ 122) || c == 95 || 128 ≤ c
def isLetterOrDigit (c : UInt8) : Bool := isLetter c || isDigit c

/-- `[-._:/]`. -/
def isWordMark (c : UInt8) : Bool := c == 45 || c == 46 || c == 95 || c == 58 || c == 47

def span (p : UInt8 → Bool) (s : Bytes) : Nat := (s.takeWhile p).length

/-- `{SIGN}?` -/
def sign (s : Bytes) : Nat := if s.head? = some 45 ∨ s.head? = some 43 then 1 else 0

/-- `{KEY}` -/
def matchKey : Bytes → Nat
  | [] => 0
  | c :: s => if isLetter c then 1 + span isLetterOrDigit s else 0

/-- `{UNQUOTED_STRING}` -/
def matchUnquoted : Bytes → Nat
  | [] => 0
  | c :: s => if isLetter c then 1 + span (fun c => isLetterOrDigit c || isWordMark c) s else 0

/-- The longest way to read on in a string, `n` bytes of which are read: a quote may end it, or be read
as an escape where a backslash comes before; no newline is read. -/
def matchBody (n : Nat) (backslash : Bool) : Bytes → Nat
  | [] => 0
  | c :: s =>
    if c = 10 then 0
    else if c = 39 then
      if backslash then max (n + 1) (matchBody (n + 1) false s) else n + 1
    else matchBody (n + 1) (c == 92) s

/-- `{STRING}` -/
def matchString : Bytes → Nat
  | [] => 0
  | c :: s => if c = 39 then matchBody 1 false s else 0

/-- `{INTEGER}` -/
def matchInteger (s : Bytes) : Nat :=
  let digits := s.drop (sign s)
  let decimal := span isDigit digits
  let hex :=
    if digits.take 2 = [48, 120] then
      if span isHexDigit (digits.drop 2) = 0 then 0 else 2 + span isHexDigit (digits.drop 2)
    else 0
  if max decimal hex = 0 then 0 else sign s + max decimal hex

/-- `{EXPONENT}?` -/
def exponent : Bytes → Nat
  | [] => 0
  | c :: s =>
    if c = 69 ∨ c = 101 then
      let digits := span isDigit (s.drop (sign s))
      if digits = 0 then 0 else 1 + sign s + digits
    else 0

/-- `{REAL}` -/
def matchReal (s : Bytes) : Nat :=
  let whole := sign s + span isDigit (s.drop (sign s))
  match s.drop whole with
  | [] => 0
  | c :: rest =>
    if c = 46 then
      let fraction := whole + 1 + span isDigit rest
      fraction + exponent (s.drop fraction)
    else 0

/-- `[ \t\r]+` -/
def isBlank (c : UInt8) : Bool := c == 32 || c == 9 || c == 13

/-- `#.*$`; the end of the line has to be there. -/
def matchComment : Bytes → Nat
  | [] => 0
  | c :: s =>
    if c = 35 then
      if s.drop (span (· != 10) s) = [] then 0 else 1 + span (· != 10) s
    else 0

/-- The rules that return a token, in their order. -/
def rules (s : Bytes) : List (Token × Nat) :=
  [(.eol, if s.head? = some 10 then 1 else 0), (.key, matchKey s), (.string, matchString s),
   (.unquotedString, matchUnquoted s), (.integer, matchInteger s), (.real, matchReal s),
   (.equals, if s.head? = some 61 then 1 else 0), (.parseError, 1)]

/-- The first of the longest. -/
def longest : List (Token × Nat) → Token × Nat
  | [] => (.parseError, 0)
  | r :: rs => if (longest rs).2 ≤ r.2 then r else longest rs

/-- `yylex()` over a file, to its end, with `yytext`. -/
def lex : Nat → Bytes → List (Token × Bytes)
  | 0, _ | _, [] => []
  | fuel + 1, s =>
    if s.takeWhile isBlank ≠ [] then lex fuel (s.dropWhile isBlank)
    else if 0 < matchComment s then lex fuel (s.drop (matchComment s))
    else
      let (token, n) := longest (rules s)
      (token, s.take n) :: lex fuel (s.drop n)

def tokens (file : Bytes) : List (Token × Bytes) := lex file.length file

example : tokens (ascii "port = 5433 # the port\nlisten_addresses= '*'\n") =
    [(.key, ascii "port"), (.equals, ascii "="), (.integer, ascii "5433"), (.eol, [10]),
     (.key, ascii "listen_addresses"), (.equals, ascii "="), (.string, ascii "'*'"), (.eol, [10])] := by
  decide

end PgPool.ConfigFile
