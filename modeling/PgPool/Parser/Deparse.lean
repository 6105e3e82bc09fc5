import PgPool.Parser.Scan

/-!
# Names and constants in the text of a tree

The functions of `outfuncs.c` that print names and constants.  What they append is a list of pieces,
so that the text of each name and each constant can be told apart.  A name is put between double
quotes as it is; the columns of an alias are printed as string constants.
-/

namespace PgPool.Deparse

/-! ## Constants -/

def digitByte (d : Fin 10) : UInt8 := 48 + UInt8.ofNat d.val

/-- An exponent with its letter and its sign. -/
structure Exponent where
  upper : Bool
  sign : Option Bool
  digits : List (Fin 10)
  nonempty : digits ≠ []

/-- What the scanner returns as the string of a numeric constant. -/
structure NumLiteral where
  int : List (Fin 10)
  frac : Option (List (Fin 10))
  exp : Option Exponent
  digits : int ≠ [] ∨ ∃ ds, frac = some ds ∧ ds ≠ []

def Exponent.signText (e : Exponent) : Bytes :=
  match e.sign with
  | none => []
  | some true => [minus]
  | some false => [plus]

def Exponent.letter (e : Exponent) : UInt8 := if e.upper then 69 else 101

def Exponent.text (e : Exponent) : Bytes := e.letter :: (e.signText ++ e.digits.map digitByte)

namespace NumLiteral

def fracText (lit : NumLiteral) : Bytes :=
  match lit.frac with
  | none => []
  | some ds => point :: ds.map digitByte

def expText (lit : NumLiteral) : Bytes :=
  match lit.exp with
  | none => []
  | some e => e.text

def text (lit : NumLiteral) : Bytes := lit.int.map digitByte ++ (lit.fracText ++ lit.expText)

/-- The value of the digits before the point. -/
def value (lit : NumLiteral) : Nat := strtoul 10 (lit.int.map digitByte)

/-- The digits of a number, without leading zeros. -/
def decimal (n : Nat) : List (Fin 10) :=
  if n = 0 then [0] else (Nat.digits 10 n).reverse.map (Fin.ofNat 10)

theorem decimal_ne_nil (n : Nat) : decimal n ≠ [] := by
  unfold decimal
  split
  · exact List.cons_ne_nil _ _
  · next h =>
    intro hnil
    rw [List.map_eq_nil_iff, List.reverse_eq_nil_iff, Nat.digits_eq_nil_iff_eq_zero] at hnil
    exact h hnil

def ofNat (n : Nat) : NumLiteral := ⟨decimal n, none, none, .inl (decimal_ne_nil n)⟩

end NumLiteral

/-- A `Value`; the string of a float is what the scanner has returned, or its negation. -/
inductive Value where
  | integer (ival : Int)
  | float (negated : Bool) (lit : NumLiteral)
  | string (str : Bytes)
  | bitString (str : Bytes)
  | null

/-- `sprintf` with "%ld". -/
def sprintfLd (ival : Int) : Bytes :=
  if ival < 0 then minus :: (NumLiteral.ofNat ival.natAbs).text else (NumLiteral.ofNat ival.natAbs).text

def floatText (negated : Bool) (lit : NumLiteral) : Bytes :=
  if negated then minus :: lit.text else lit.text

def escapeString (str : Bytes) : Bytes :=
  str.flatMap fun c =>
    if c = quote then [quote, quote] else if c = backslash then [backslash, backslash] else [c]

def outValue : Value → Bytes
  | .integer ival => sprintfLd ival
  | .float negated lit => floatText negated lit
  | .string str => quote :: (escapeString str ++ [quote])
  | .null => [78, 85, 76, 76]
  -- T_BitString is left to the default
  | .bitString _ => []

def outAConst : Value → Bytes
  | .integer ival => sprintfLd ival
  | .float negated lit => floatText negated lit
  | .string str => quote :: (escapeString str ++ [quote])
  | .null => [78, 85, 76, 76]
  | .bitString _ => []

/-! ## Names -/

/-- Where a name is printed. -/
inductive NameSite where
  | catalogname | schemaname | relname
  | aliasname
  /-- A column of an alias. -/
  | colname
  /-- A part of a column reference. -/
  | field
  | idList
  /-- A column that is assigned to, or that has got a name in a result. -/
  | resTarget
  | prepare | execute | deallocate
  deriving DecidableEq, Repr

/-- Where a constant is printed. -/
inductive ConstSite where
  | value | aConst
  deriving DecidableEq, Repr

/-- A part of a text. -/
inductive Piece where
  | fixed (str : String)
  | name (site : NameSite) (name : Bytes)
  | const (site : ConstSite) (val : Value)

def outName : NameSite → Bytes → Bytes
  -- by way of `_outList` and `_outValue`
  | .colname, name => outValue (.string name)
  | _, name => dquote :: (name ++ [dquote])

def Piece.text : Piece → Bytes
  | .fixed str => str.toUTF8.toList
  | .name site str => outName site str
  | .const .value val => outValue val
  | .const .aConst val => outAConst val

/-! ## Nodes -/

structure Alias where
  aliasname : Bytes
  colnames : List Bytes

structure RangeVar where
  catalogname : Option Bytes
  schemaname : Option Bytes
  relname : Bytes
  aliasNode : Option Alias
  /-- `inhOpt == INH_YES` -/
  inhYes : Bool

/-- A field of a column reference; the other one is `A_Star`. -/
inductive Field where
  | string (name : Bytes)
  | star

/-- The pieces of several nodes, with something in between. -/
def separated (separator : String) : List (List Piece) → List Piece
  | [] => []
  | [ps] => ps
  | ps :: rest => ps ++ .fixed separator :: separated separator rest

def outIdList (names : List Bytes) : List Piece :=
  separated ", " (names.map fun name => [.name .idList name])

def outAlias (node : Alias) : List Piece :=
  [.fixed " AS ", .name .aliasname node.aliasname] ++
    if node.colnames = [] then []
    else [.fixed "("] ++ separated "," (node.colnames.map fun name => [.name .colname name]) ++
      [.fixed ")"]

/-- The qualification of a relation name. -/
def qualified (site : NameSite) : Option Bytes → List Piece
  | some name => [.name site name, .fixed "."]
  | none => []

def outRangeVar (node : RangeVar) : List Piece :=
  qualified .catalogname node.catalogname ++ qualified .schemaname node.schemaname ++
    [.name .relname node.relname] ++ (node.aliasNode.map outAlias).getD [] ++
    if node.inhYes then [.fixed " * "] else []

def outColumnRef (fields : List Field) : List Piece :=
  separated "." (fields.map fun
    | .string name => [.name .field name]
    | .star => [.fixed "*"])

/-- `_outResTarget`; `val` are the pieces of the expression. -/
def outResTarget (name : Option Bytes) (indirection : Bool) (val : List Piece) : List Piece :=
  if indirection then
    (name.map fun name => [.name .resTarget name, .fixed "="]).getD [] ++ val
  else val ++ (name.map fun name => [.fixed " AS ", .name .resTarget name, .fixed " "]).getD []

/-- `_outPrepareStmt`; `argtypes` and `query` are the pieces of these nodes. -/
def outPrepareStmt (name : Bytes) (argtypes : Option (List Piece)) (query : List Piece) : List Piece :=
  [.fixed "PREPARE ", .name .prepare name, .fixed " "] ++
    (argtypes.map fun ps => [.fixed "("] ++ ps ++ [.fixed ") "]).getD [] ++ [.fixed "AS "] ++ query

/-- `_outExecuteStmt`; `into` is the relation of INTO, with whether it is temporary. -/
def outExecuteStmt (name : Bytes) (into : Option (RangeVar × Bool)) (params : Option (List Piece)) :
    List Piece :=
  (into.map fun (rel, istemp) =>
    [.fixed "CREATE "] ++ (if istemp then [.fixed "TEMP "] else []) ++ [.fixed "TABLE "] ++
      outRangeVar rel ++ [.fixed " AS "]).getD [] ++
    [.fixed "EXECUTE ", .name .execute name, .fixed " "] ++
    (params.map fun ps => [.fixed "("] ++ ps ++ [.fixed ")"]).getD []

def outDeallocateStmt (name : Bytes) : List Piece := [.fixed "DEALLOCATE ", .name .deallocate name]

end PgPool.Deparse
