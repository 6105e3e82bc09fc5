import Mathlib.Data.List.Basic
import Mathlib.Data.Nat.Digits.Defs

/-!
# Tokens that begin with a quote, a digit or an operator

The rules of `scan.l` for delimited identifiers, quoted strings, numbers and operators.  Text is a
list of bytes.  In the exclusive states a run that flex matches at once is read byte by byte, which
adds the same bytes to the literal buffer.
-/

namespace PgPool.Deparse

abbrev Bytes := List UInt8

def dquote : UInt8 := 34
def quote : UInt8 := 39
def plus : UInt8 := 43
def minus : UInt8 := 45
def point : UInt8 := 46
def backslash : UInt8 := 92

/-- What `yylex` returns, with its value. -/
inductive Token where
  | ident (name : Bytes)
  | sconst (str : Bytes)
  | bconst (str : Bytes)
  | iconst (ival : Nat)
  | fconst (str : Bytes)
  | op (str : Bytes)
  | dotDot
  /-- A single character that stands for itself. -/
  | char (c : UInt8)
  deriving DecidableEq, Repr

/-- `standard_conforming_strings`; whether `GetDatabaseEncoding()` is UTF-8; and which strings
`pg_verifymbstr` passes. -/
structure Settings where
  standardConformingStrings : Bool
  utf8 : Bool
  verifyMbstr : Bytes → Bool

/-! ## Quoted strings -/

def isNewline (c : UInt8) : Bool := c == 10 || c == 13
def isSpace (c : UInt8) : Bool := c == 32 || c == 9 || c == 12 || isNewline c

/-- A `comment` begins here. -/
def isComment (text : Bytes) : Bool := [minus, minus].isPrefixOf text

/-- What follows the comment at the head of the text. -/
def afterComment (text : Bytes) : Bytes := text.dropWhile fun c => !isNewline c

/-- `special_whitespace*` and a quote; what follows them. -/
def specialThenQuote : Nat → Bytes → Option Bytes
  | 0, _ => none
  | fuel + 1, text =>
    if isComment text then
      match afterComment text with
      | [] => none
      | _ :: rest => specialThenQuote fuel rest
    else
      match text with
      | [] => none
      | c :: rest =>
        if isSpace c then specialThenQuote fuel rest else if c = quote then some rest else none

/-- `quotecontinue` after its first quote: white space with a newline, and a quote. -/
def quotecontinue : Nat → Bytes → Option Bytes
  | 0, _ => none
  | fuel + 1, text =>
    if isComment text then quotecontinue fuel (afterComment text)
    else
      match text with
      | [] => none
      | c :: rest =>
        if isNewline c then specialThenQuote (rest.length + 1) rest
        else if isSpace c then quotecontinue fuel rest
        else none

/-- State `xq`: the string, and what follows it. -/
def scanXq : Nat → Bytes → Option (Bytes × Bytes)
  | 0, _ => none
  | _, [] => none
  | fuel + 1, c :: rest =>
    if c = quote then
      if rest.head? = some quote then (scanXq fuel rest.tail).map (Prod.map (quote :: ·) id)
      else
        match quotecontinue (rest.length + 1) rest with
        | some rest => scanXq fuel rest
        | none => some ([], rest)
    else (scanXq fuel rest).map (Prod.map (c :: ·) id)

def isOctal (c : UInt8) : Bool := 48 ≤ c && c ≤ 55
def isDigit (c : UInt8) : Bool := 48 ≤ c && c ≤ 57
def isHex (c : UInt8) : Bool := isDigit c || (97 ≤ c && c ≤ 102) || (65 ≤ c && c ≤ 70)

def hexval (c : UInt8) : Nat :=
  if isDigit c then c.toNat - 48 else if 97 ≤ c then c.toNat - 97 + 10 else c.toNat - 65 + 10

/-- `strtoul`, of digits. -/
def strtoul (base : Nat) (digits : Bytes) : Nat :=
  digits.foldl (fun n c => base * n + hexval c) 0

/-- `\b`, `\f`, `\n`, `\r`, `\t`, and any other character as it is. -/
def unescapeSingleChar (c : UInt8) : UInt8 :=
  if c = 98 then 8 else if c = 102 then 12 else if c = 110 then 10 else if c = 114 then 13
  else if c = 116 then 9 else c

def isHighbitSet (c : UInt8) : Bool := c == 0 || 128 ≤ c

/-- `unicode_to_utf8` -/
def unicodeToUtf8 (c : Nat) : Bytes :=
  if c ≤ 0x7F then [c.toUInt8]
  else if c ≤ 0x7FF then [(0xC0 + c / 64).toUInt8, (0x80 + c % 64).toUInt8]
  else if c ≤ 0xFFFF then
    [(0xE0 + c / 4096).toUInt8, (0x80 + c / 64 % 64).toUInt8, (0x80 + c % 64).toUInt8]
  else
    [(0xF0 + c / 262144).toUInt8, (0x80 + c / 4096 % 64).toUInt8, (0x80 + c / 64 % 64).toUInt8,
     (0x80 + c % 64).toUInt8]

/-- `xeunicode` after the backslash: the value, and what follows. -/
def xeunicode : Bytes → Option (Nat × Bytes)
  | [] => none
  | c :: rest =>
    let len := if c = 117 then 4 else 8
    if (c = 117 ∨ c = 85) ∧ (rest.take len).length = len ∧ (rest.take len).all isHex then
      some (strtoul 16 (rest.take len), rest.drop len)
    else none

def isUtf16SurrogateFirst (c : Nat) : Bool := 0xD800 ≤ c && c ≤ 0xDBFF
def isUtf16SurrogateSecond (c : Nat) : Bool := 0xDC00 ≤ c && c ≤ 0xDFFF

/-- `xeunicode` in the states `xe` and `xeu`, without `addunicode`. -/
def unicodeEscape (text : Bytes) : Option (Nat × Bytes) :=
  match xeunicode text with
  | none => none
  | some (c, rest) =>
    if isUtf16SurrogateFirst c then
      match rest with
      | d :: rest =>
        match if d = backslash then xeunicode rest else none with
        | some (c', rest) =>
          if isUtf16SurrogateSecond c' then
            some (c % 1024 * 1024 + 0x10000 + c' % 1024, rest)
          else none
        | none => none
      | [] => none
    else if isUtf16SurrogateSecond c then none
    else some (c, rest)

/-- `addunicode` passes the value. -/
def unicodeValid (s : Settings) (c : Nat) : Bool :=
  c != 0 && c ≤ 0x10FFFF && (c ≤ 0x7F || s.utf8)

/-- The escape after a backslash: the bytes it stands for, whether it sets `saw_non_ascii`, and what
follows. -/
def escape (s : Settings) : Bytes → Option (Bytes × Bool × Bytes)
  -- a backslash just before the end
  | [] => some ([backslash], false, [])
  | c :: rest =>
    if isOctal c then
      let digits := c :: (rest.take 2).takeWhile isOctal
      let value := (strtoul 8 digits).toUInt8
      some ([value], isHighbitSet value, (c :: rest).drop digits.length)
    else if c = 120 ∧ (rest.head?.any isHex = true) then
      let digits := (rest.take 2).takeWhile isHex
      let value := (strtoul 16 digits).toUInt8
      some ([value], isHighbitSet value, rest.drop digits.length)
    else if c = 117 ∨ c = 85 then
      match unicodeEscape (c :: rest) with
      | some (value, rest) =>
        if unicodeValid s value then some (unicodeToUtf8 value, decide (0x7F < value), rest) else none
      | none => none
    else
      let value := unescapeSingleChar c
      some ([value], isHighbitSet value, rest)

/-- State `xe`: the string, `saw_non_ascii`, and what follows. -/
def scanXe (s : Settings) : Nat → Bytes → Option (Bytes × Bool × Bytes)
  | 0, _ => none
  | _, [] => none
  | fuel + 1, c :: rest =>
    if c = quote then
      if rest.head? = some quote then
        (scanXe s fuel rest.tail).map (Prod.map (quote :: ·) id)
      else
        match quotecontinue (rest.length + 1) rest with
        | some rest => scanXe s fuel rest
        | none => some ([], false, rest)
    else if c = backslash then
      match escape s rest with
      | some (bytes, saw, rest) =>
        (scanXe s fuel rest).map (Prod.map (bytes ++ ·) (Prod.map (saw || ·) id))
      | none => none
    else (scanXe s fuel rest).map (Prod.map (c :: ·) id)

/-- A string after its first quote. -/
def scanString (s : Settings) (text : Bytes) : Option (Token × Bytes) :=
  if s.standardConformingStrings then
    (scanXq (text.length + 1) text).map fun (str, rest) => (.sconst str, rest)
  else
    match scanXe s (text.length + 1) text with
    | some (str, saw, rest) => if saw && !s.verifyMbstr str then none else some (.sconst str, rest)
    | none => none

/-! ## Delimited identifiers -/

/-- State `xd`. -/
def scanXd : Bytes → Option (Bytes × Bytes)
  | [] => none
  | [c] => if c = dquote then some ([], []) else none
  | c :: c' :: rest =>
    if c = dquote then
      if c' = dquote then (scanXd rest).map (Prod.map (dquote :: ·) id) else some ([], c' :: rest)
    else (scanXd (c' :: rest)).map (Prod.map (c :: ·) id)

/-- An identifier after its first quote.  `truncate_identifier` does nothing here. -/
def scanIdentifier (text : Bytes) : Option (Token × Bytes) :=
  match scanXd text with
  -- zero-length delimited identifier
  | some ([], _) => none
  | some (name, rest) => some (.ident name, rest)
  | none => none

/-! ## Numbers -/

/-- An integer that does not fit into 32 bits is a float. -/
def processIntegerLiteral (digits : Bytes) : Token :=
  let val := strtoul 10 digits
  if val < 2 ^ 31 then .iconst val else .fconst digits

/-- The text after `[Ee]`: the exponent with its sign, if it has digits. -/
def exponent (text : Bytes) : Option (Bytes × Bytes) :=
  let sign := (text.take 1).filter fun c => c == plus || c == minus
  let rest := text.drop sign.length
  let digits := rest.takeWhile isDigit
  if digits = [] then none else some (sign ++ digits, rest.dropWhile isDigit)

/-- `real`, `realfail1` and `realfail2` after `mantissa`, or what the mantissa is by itself. -/
def scanExponent (mantissa : Bytes) (alone : Token) (text : Bytes) : Token × Bytes :=
  match text with
  | e :: rest =>
    if e = 101 ∨ e = 69 then
      match exponent rest with
      | some (digits, rest) => (.fconst (mantissa ++ e :: digits), rest)
      -- the letter is thrown back
      | none => (.fconst mantissa, text)
    else (alone, text)
  | [] => (alone, text)

/-- `integer`, `decimal`, `decimalfail` and `real`; `int` are the digits at the head of the text. -/
def scanNumber (int text : Bytes) : Token × Bytes :=
  match text with
  | c :: rest =>
    if c = point ∧ (int = [] ∨ rest.head? ≠ some point) then
      let frac := rest.takeWhile isDigit
      let mantissa := int ++ point :: frac
      scanExponent mantissa (.fconst mantissa) (rest.dropWhile isDigit)
    else if c = point then (processIntegerLiteral int, text)
    else scanExponent int (processIntegerLiteral int) text
  | [] => scanExponent int (processIntegerLiteral int) text

/-! ## Operators -/

/-- `~!@#^&|?+-*/%<>=` and the backquote. -/
def opChars : Bytes := [126, 33, 64, 35, 94, 38, 124, 96, 63, 43, 45, 42, 47, 37, 60, 62, 61]

/-- The single characters among them: `+-*/%^<>=`. -/
def selfOpChars : Bytes := [43, 45, 42, 47, 37, 94, 60, 62, 61]

/-- A character that is not in SQL operators: `~!@#^&|?%` and the backquote. -/
def notSqlOpChars : Bytes := [126, 33, 64, 35, 94, 38, 124, 96, 63, 37]

/-- Where a comment begins in a run of operator characters. -/
def commentStart : Bytes → Nat
  | [] => 0
  | c :: rest =>
    if isComment (c :: rest) || [47, 42].isPrefixOf (c :: rest) then 0 else commentStart rest + 1

/-- `+` and `-` at the end of an operator that consists of SQL characters are not part of it. -/
def trimOperator : Nat → Bytes → Nat
  | 0, run => run.length
  | fuel + 1, run =>
    if 1 < run.length ∧ (run.getLast? = some plus ∨ run.getLast? = some minus) ∧
        ¬ run.dropLast.any (notSqlOpChars.contains ·) then
      trimOperator fuel run.dropLast
    else run.length

/-- `self` and `operator`. -/
def scanOperator (text : Bytes) : Option (Token × Bytes) :=
  let run := text.takeWhile (opChars.contains ·)
  let nchars := trimOperator run.length (run.take (commentStart run))
  let rest := text.drop nchars
  match run.take nchars with
  -- a comment, which is not printed
  | [] => none
  | [c] => some (if selfOpChars.contains c then .char c else .op [c], rest)
  | str =>
    if 64 ≤ str.length then none
    else if str = [33, 61] then some (.op [60, 62], rest)
    else some (.op str, rest)

/-- The first token of a text, and what follows it.  No name or constant is printed with other text
at its head than the kinds here. -/
def yylex (s : Settings) (text : Bytes) : Option (Token × Bytes) :=
  match text with
  | [] => none
  | c :: rest =>
    if c = dquote then scanIdentifier rest
    else if c = quote then scanString s rest
    else if isDigit c then some (scanNumber (text.takeWhile isDigit) (text.dropWhile isDigit))
    else if c = point then
      if rest.head?.any isDigit then some (scanNumber [] text)
      else if rest.head? = some point then some (.dotDot, rest.tail)
      else some (.char point, rest)
    else if opChars.contains c then scanOperator text
    else none

end PgPool.Deparse
