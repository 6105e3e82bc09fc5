import PgPool.Parser.Undone

/-!
# Queries inside of queries

A part of a query that is pushed down is a double quoted argument inside of a string literal.  The system
database reads the literal, pgpool reads the argument, and `delimistr` takes its quotes off.
-/

namespace PgPool.Nested

open PgPool.Deparse

/-! ## What is printed -/

/-- `_rewriteAConst`; `locked`: inside of a part that is pushed down. -/
def rewriteAConst (locked : Bool) : Deparse.Value → Bytes
  | .integer ival => sprintfLd ival
  | .float negated lit => floatText negated lit
  | .string str =>
      if locked then [quote, quote] ++ (escapeString str ++ [quote, quote])
      else quote :: (escapeString str ++ [quote])
  | .null => [78, 85, 76, 76]
  | .bitString _ => []

/-- A name in `_rewriteTypeName`, or a column without a name. -/
def delimited (locked : Bool) (name : Bytes) : Bytes :=
  if locked then [dquote, dquote] ++ (name ++ [dquote, dquote]) else name

/-- A name or a constant inside of a part that is pushed down. -/
inductive Item where
  /-- A name that is printed as it is. -/
  | name (name : Bytes)
  | delimited (name : Bytes)
  | const (str : Bytes)

/-- Keywords, numbers, operators. -/
structure Plain where
  text : Bytes
  plain : ∀ c ∈ text, c ≠ quote ∧ c ≠ dquote ∧ c ≠ backslash ∧ isNewline c = false

def isIdentStart (c : UInt8) : Bool := (65 ≤ c && c ≤ 90) || (97 ≤ c && c ≤ 122) || 128 ≤ c || c == 95
def isIdentCont (c : UInt8) : Bool := isIdentStart c || isDigit c || c == 36

/-- What follows a name or a constant. -/
structure Separator extends Plain where
  starts : ∃ c rest, text = c :: rest ∧ isIdentCont c = false

/-- A part of a query, from SELECT on. -/
structure Part where
  head : Plain
  nonempty : head.text ≠ []
  body : List (Item × Separator)
  last : Option Item

/-- The text of a part, whose names and constants are printed by `out`. -/
def renderBody (out : Item → Bytes) : List (Item × Separator) → Option Item → Bytes
  | [], last => last.elim [] out
  | (item, separator) :: body, last => out item ++ (separator.text ++ renderBody out body last)

def Part.render (out : Item → Bytes) (part : Part) : Bytes :=
  part.head.text ++ renderBody out part.body part.last

def Item.text : Item → Bytes
  | .name n => n
  | .delimited n => Nested.delimited true n
  | .const str => rewriteAConst true (.string str)

/-- The function that is called for a part. -/
inductive Engine where
  | poolParallel | poolLoadbalance

/-- `SELECT pool_parallel("` and `SELECT pool_loadbalance("` -/
def Engine.header : Engine → Bytes
  | .poolParallel => [83, 69, 76, 69, 67, 84, 32, 112, 111, 111, 108, 95, 112, 97, 114, 97, 108, 108, 101,
      108, 40, 34]
  | .poolLoadbalance => [83, 69, 76, 69, 67, 84, 32, 112, 111, 111, 108, 95, 108, 111, 97, 100, 98, 97, 108,
      97, 110, 99, 101, 40, 34]

def paren : UInt8 := 41
def comma : UInt8 := 44

/-- What `writeRangeHeader` and `writeRangeFooter` put between the quotes of the literal. -/
def literal (engine : Engine) (part : Part) : Bytes :=
  engine.header ++ (part.render Item.text ++ [dquote, paren])

/-! ## What is undone -/

/-- The loop of `delimistr` behind the first character. -/
def strip : Bytes → Bytes
  | [] => []
  | [_] => []
  | c :: c' :: rest => if c = quote ∧ c' = quote then quote :: strip rest else c :: strip (c' :: rest)

/-- `delimistr` -/
def delimistr (str : Bytes) : Bytes := strip str.tail

/-- The argument of the call. -/
def Engine.argument (engine : Engine) (query : Bytes) : Option Bytes :=
  if engine.header <+: query then some (query.drop engine.header.length) else none

/-- Layer by layer: the literal, up to the text that follows it; the argument, which is one name; and the
query that is executed. -/
def undo (sys : Settings) (engine : Engine) (part : Part) (rest : Bytes) : Option Bytes :=
  match scanString sys (literal engine part ++ quote :: rest) with
  | some (.sconst query, rest') =>
      if rest' = rest then
        (engine.argument query).bind fun arg =>
          match scanIdentifier arg with
          | some (.ident name, [c]) =>
              if c = paren then some (delimistr (Piece.name .field name).text) else none
          | _ => none
      else none
  | _ => none

/-- `is_parallel_query` of a call with a string literal. -/
def rewriteQuery (str : Bytes) : Bytes := delimistr (outAConst (.string str))

/-! ## What is read -/

/-- The lower case of a letter, in the C locale. -/
def downcase (c : UInt8) : UInt8 := if 65 ≤ c ∧ c ≤ 90 then c + 32 else c

/-- A Unicode string or identifier begins with the word. -/
def isUnicode (word rest : Bytes) : Bool :=
  word == [117] && ([38, quote].isPrefixOf rest || [38, dquote].isPrefixOf rest)

/-- The rule `identifier`, for the words that the grammar takes for names. -/
def scanName (keyword : Bytes → Bool) (text : Bytes) : Option (Bytes × Bytes) :=
  let word := (text.takeWhile isIdentCont).map downcase
  let rest := text.dropWhile isIdentCont
  if (text.head?.any isIdentStart) = true ∧ keyword word = false ∧ isUnicode word rest = false then
    some (word, rest)
  else none

variable (sys node : Settings) (keyword : Bytes → Bool)

/-- A name or a constant is read at the head of the text, with its value. -/
def Item.ReadsAs (text rest : Bytes) : Item → Prop
  | .name n => scanName keyword text = some (n, rest)
  | .delimited n => ∃ t, text = dquote :: t ∧ scanIdentifier t = some (.ident n, rest)
  | .const str => ∃ t, text = quote :: t ∧ scanString node t = some (.sconst str, rest)

/-- A comment begins. -/
def Comments (text : Bytes) : Prop := [minus, minus] <:+: text

def ReadsBody : List (Item × Separator) → Option Item → Bytes → Prop
  | [], none, text => text = []
  | [], some item, text => item.ReadsAs node keyword text []
  | (item, separator) :: body, last, text =>
      ∃ rest, item.ReadsAs node keyword text (separator.text ++ rest) ∧ ¬ Comments separator.text ∧
        ReadsBody body last rest

/-- The text is read as the part, with the values of all names and constants. -/
def Part.Reads (part : Part) (text : Bytes) : Prop :=
  ∃ rest, text = part.head.text ++ rest ∧ ¬ Comments part.head.text ∧
    ReadsBody node keyword part.body part.last rest

/-- The query that is executed is the part. -/
def Survives (engine : Engine) (part : Part) (rest : Bytes) : Prop :=
  ∃ text, undo sys engine part rest = some text ∧ part.Reads node keyword text

/-! ## The condition -/

/-- A name that is read as it is. -/
def Nameable (name : Bytes) : Prop :=
  name.head?.any isIdentStart = true ∧ (∀ c ∈ name, isIdentCont c = true ∧ downcase c = c) ∧
    keyword name = false

/-- The names and constants that survive. -/
def Item.Kept : Item → Prop
  | .name n => Nameable keyword n
  | .delimited n => n ≠ [] ∧ quote ∉ n ∧ dquote ∉ n ∧
      (sys.standardConformingStrings = false → backslash ∉ n)
  | .const str => str ≠ [] ∧ quote ∉ str ∧ dquote ∉ str ∧
      (sys.standardConformingStrings = node.standardConformingStrings → backslash ∉ str)

/-- A quote is printed for it. -/
def Item.Quoted : Item → Prop
  | .name _ => False
  | .delimited _ | .const _ => True

/-- The next name or constant. -/
def nextItem : List (Item × Separator) → Option Item → Option Item
  | [], last => last
  | (item, _) :: _, _ => some item

/-- Of a name `u` and what follows it, a Unicode string or identifier has been made. -/
def Joins (item : Item) (separator : Separator) (next : Option Item) : Prop :=
  item = .name [117] ∧ separator.text = [38] ∧ ∃ i, next = some i ∧ i.Quoted

def KeptBody : List (Item × Separator) → Option Item → Prop
  | [], last => ∀ item, last = some item → item.Kept sys node keyword
  | (item, separator) :: body, last =>
      item.Kept sys node keyword ∧ ¬ Comments separator.text ∧ ¬ Joins item separator (nextItem body last) ∧
        KeptBody body last

/-- All names and constants are kept, and no comment begins between them. -/
def Part.Kept (part : Part) : Prop :=
  ¬ Comments part.head.text ∧ KeptBody sys node keyword part.body part.last

end PgPool.Nested
