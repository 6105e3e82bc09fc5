import Mathlib.Data.List.Basic

/-!
# The tokens of `pool_hba.conf`

`next_token`, `next_token_expand` and `tokenize_file` of `pool_hba.c`.  A stream is what is left of the
file, and whether `getc` has met the end of it; a string ends at its first null character.
-/

namespace PgPool.Hba

abbrev Bytes := List UInt8

def newline : UInt8 := 10
def dquote : UInt8 := 34
def hash : UInt8 := 35
def comma : UInt8 := 44
def at' : UInt8 := 64

/-- `MULTI_VALUE_SEP`. -/
def multiValueSep : UInt8 := 1

/-- `MAX_TOKEN`. -/
def maxToken : Nat := 256

/-- `pg_isblank`. -/
def pgIsblank (c : UInt8) : Bool := c == 32 || c == 9 || c == 13

/-- The string in a buffer. -/
def cstring (buf : Bytes) : Bytes := buf.takeWhile (· != 0)

/-- What is left of a file. -/
structure Stream where
  rest : Bytes
  eof : Bool
  deriving DecidableEq

/-- `ungetc` of the next character, or none at the end of the file. -/
def Stream.at (text : Bytes) : Stream := ⟨text, text.isEmpty⟩

/-- Move over initial whitespace and commas. -/
def skipBlanks (text : Bytes) : Bytes := text.dropWhile fun c => pgIsblank c || c == comma

/-- The rest of a line. -/
def afterLine (text : Bytes) : Bytes := text.dropWhile (· != newline)

/-- The loop that builds a token.  The first character of the text is `c`; the result is the buffer,
`saw_quote` and the stream behind the token. -/
def buildToken (buf : Bytes) (inQuote wasQuote sawQuote : Bool) : Bytes → Bytes × Bool × Stream
  | [] => (buf, sawQuote, .at [])
  | c :: text =>
    if c = newline ∨ (pgIsblank c ∧ ¬ inQuote) then (buf, sawQuote, .at (c :: text))
    else if c = hash ∧ ¬ inQuote then
      -- if only comment, consume EOL too
      if buf = [] then (buf, sawQuote, .at (afterLine text).tail)
      else (buf, sawQuote, .at (afterLine text))
    else if maxToken - 2 ≤ buf.length then (buf, sawQuote, .at (afterLine text))
    else
      let buf := if c ≠ dquote ∨ wasQuote then buf ++ [c] else buf
      -- we pass back the comma so the caller knows there is more
      if c = comma ∧ ¬ inQuote then (buf, sawQuote, .at (c :: text))
      else
        buildToken buf (if c = dquote then !inQuote else inQuote)
          (inQuote && c == dquote && !wasQuote) (sawQuote || c == dquote) text

/-- `all`, `sameuser` and `samegroup`. -/
def keywords : List Bytes :=
  [[97, 108, 108], [115, 97, 109, 101, 117, 115, 101, 114],
    [115, 97, 109, 101, 103, 114, 111, 117, 112]]

instance (text : Bytes) : Decidable (text ∈ keywords) := inferInstance

/-- `next_token`: the token, and what follows. -/
def nextToken (s : Stream) : Bytes × Stream :=
  match skipBlanks s.rest with
  | [] => ([], .at [])
  | c :: text =>
    if c = newline then ([], ⟨text, false⟩)
    else
      let (buf, sawQuote, s) := buildToken [] false false false (c :: text)
      -- append newline to a magical keyword
      (cstring (if !sawQuote && cstring buf ∈ keywords then buf ++ [newline] else buf), s)

/-- The loop of `next_token_expand`; `incFile` is `tokenize_inc_file`, which opens another file. -/
def expandLoop (incFile : Bytes → Bytes) : Nat → Bytes → Stream → Bytes × Stream
  | 0, commaStr, s => (commaStr, s)
  | fuel + 1, commaStr, s =>
    let (buf, s) := nextToken s
    if buf = [] then (commaStr, s)
    else
      let trailingComma := buf.getLast? == some comma
      let buf := if trailingComma then buf.dropLast else buf
      let incbuf := if buf.head? = some at' then incFile buf.tail else buf
      if trailingComma then expandLoop incFile fuel (commaStr ++ incbuf ++ [multiValueSep]) s
      else (commaStr ++ incbuf, s)

/-- `next_token_expand`.  Each token takes a character at least. -/
def nextTokenExpand (incFile : Bytes → Bytes) (s : Stream) : Bytes × Stream :=
  expandLoop incFile (s.rest.length + 1) [] s

/-- A line of the file: its tokens, and its number. -/
structure HbaLine where
  tokens : List Bytes
  lineNum : Nat
  deriving DecidableEq

/-- The tokens that `tokenize_file` gets from `next_token_expand`, one after the other; an empty one
stands for the end of a line. -/
def tokenStream (incFile : Bytes → Bytes) : Nat → Stream → List Bytes
  | 0, _ => []
  | fuel + 1, s =>
    if s.eof then []
    else
      let (buf, s) := nextTokenExpand incFile s
      buf :: tokenStream incFile fuel s

/-- All tokens of a file. -/
def fileTokens (incFile : Bytes → Bytes) (file : Bytes) : List Bytes :=
  tokenStream incFile (file.length + 2) ⟨file, false⟩

/-- The lists that `tokenize_file` makes of the tokens: `current` is `current_line`, with the number it
got when it was begun. -/
def linesOf : Option HbaLine → Nat → List Bytes → List HbaLine
  | none, _, [] => []
  | some line, _, [] => [line]
  | current, lineNumber, [] :: tokens => current.toList ++ linesOf none (lineNumber + 1) tokens
  | none, lineNumber, buf :: tokens => linesOf (some ⟨[buf], lineNumber⟩) lineNumber tokens
  | some line, lineNumber, buf :: tokens =>
    linesOf (some { line with tokens := line.tokens ++ [buf] }) lineNumber tokens

/-- `tokenize_file`. -/
def tokenizeFile (incFile : Bytes → Bytes) (file : Bytes) : List HbaLine :=
  linesOf none 1 (fileTokens incFile file)

end PgPool.Hba
